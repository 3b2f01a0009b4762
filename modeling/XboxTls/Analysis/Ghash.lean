import XboxTls.Analysis.ByteStrings
import XboxTls.Interface.Ghash

/-!
# The hash of AES-GCM

Every step of `gfmul` is a step of a product of polynomials: `xor16` is the sum, and `shr1` with
the byte that is added for the bit that falls out is the product with the unknown.
-/

set_option autoImplicit false

namespace XboxTls.Analysis

open Polynomial Programs XboxTls.Model XboxTls.Interface.Ghash

/-! ## Bits -/

/-- The exclusive or of blocks, byte by byte. -/
theorem byteAt_xor16 (a b : Block) {i : ℕ} (hi : i < 16) :
    byteAt (xor16 a b).val i = byteAt a.val i ^^^ byteAt b.val i := by
  have ha : i < a.val.length := by rwa [a.property]
  have hb : i < b.val.length := by rwa [b.property]
  rw [byteAt_eq_getElem ha, byteAt_eq_getElem hb, byteAt_eq_getElem (by rwa [(xor16 a b).property])]
  exact List.getElem_zipWith

/-- The exclusive or of blocks, bit by bit. -/
theorem blockBit_xor16 (a b : Block) {i : ℕ} (hi : i < 128) :
    blockBit (xor16 a b) i = (blockBit a i ^^ blockBit b i) := by
  unfold blockBit
  rw [byteAt_xor16 a b (by omega), UInt8.toNat_xor, Nat.testBit_xor]

/-- A bit of a byte of `shr1`. -/
theorem testBit_shr1 (x c : UInt8) {k : ℕ} (hk : k < 8) :
    ((x >>> 1) ||| ((c &&& 1) <<< 7)).toNat.testBit k =
      if k = 7 then c.toNat.testBit 0 else x.toNat.testBit (k + 1) := by
  have hx : x.toNat.testBit 8 = false := Nat.testBit_lt_two_pow x.toNat_lt
  rw [UInt8.toNat_or, UInt8.toNat_shiftRight, UInt8.toNat_shiftLeft, UInt8.toNat_and]
  simp only [Nat.testBit_or, Nat.testBit_mod_two_pow, Nat.testBit_shiftRight,
    Nat.testBit_shiftLeft, Nat.testBit_and]
  interval_cases k <;> simp [hx]

/-- What falls out of a byte enters the next one. -/
theorem byteAt_shr1 (v : Block) {j : ℕ} (hj : j < 16) :
    byteAt (shr1 v).val j =
      (byteAt v.val j >>> 1) ||| ((if j = 0 then 0 else byteAt v.val (j - 1) &&& 1) <<< 7) := by
  have hlen := v.property
  rw [byteAt_eq_getElem (by rwa [(shr1 v).property]), byteAt_eq_getElem (by rwa [hlen])]
  simp only [shr1, List.getElem_zipWith]
  cases j with
  | zero => rfl
  | succ j =>
    rw [if_neg (Nat.succ_ne_zero j), Nat.add_sub_cancel,
      byteAt_eq_getElem (show j < v.val.length by omega), List.getElem_cons_succ, List.getElem_map]

/-- The shift, bit by bit. -/
theorem blockBit_shr1 (v : Block) {i : ℕ} (hi : i < 128) :
    blockBit (shr1 v) i = shiftBits (blockBit v) i := by
  unfold blockBit shiftBits
  dsimp only
  rw [byteAt_shr1 v (by omega)]
  by_cases hfirst : i / 8 = 0
  · have hnone : (0 : UInt8) = 0 &&& 1 := rfl
    rw [if_pos hfirst, hnone, testBit_shr1 _ _ (by omega)]
    by_cases hzero : i = 0
    · rw [hzero]
      rfl
    · rw [if_neg (by omega), show (i - 1) / 8 = i / 8 by omega,
        show 7 - (i - 1) % 8 = 7 - i % 8 + 1 by omega, decide_eq_true hzero, Bool.true_and]
  · rw [if_neg hfirst, testBit_shr1 _ _ (by omega), decide_eq_true (by omega : i ≠ 0),
      Bool.true_and]
    by_cases hstart : i % 8 = 0
    · rw [if_pos (by omega), show (i - 1) / 8 = i / 8 - 1 by omega,
        show 7 - (i - 1) % 8 = 0 by omega]
    · rw [if_neg (by omega), show (i - 1) / 8 = i / 8 by omega,
        show 7 - (i - 1) % 8 = 7 - i % 8 + 1 by omega]

/-- The places of `0xe1` in the first byte. -/
def reductionBit (i : ℕ) : Bool := decide (i = 0 ∨ i = 1 ∨ i = 2 ∨ i = 7)

/-- The reduction, bit by bit. -/
theorem blockBit_reduce (v : Block) {i : ℕ} (hi : i < 128) :
    blockBit (v.set 0 (byteAt v.val 0 ^^^ 0xe1)) i = (blockBit v i ^^ reductionBit i) := by
  have hset : ∀ j, byteAt (v.set 0 (byteAt v.val 0 ^^^ 0xe1)).val j =
      if j = 0 then byteAt v.val 0 ^^^ 0xe1 else byteAt v.val j := by
    intro j
    have hlen : 0 < v.val.length := by rw [v.property]; decide
    unfold byteAt FixedBytes.set
    rw [List.getD_eq_getElem?_getD, List.getElem?_set]
    by_cases hj : j = 0
    · rw [if_pos hj.symm, if_pos hlen, if_pos hj]
      rfl
    · rw [if_neg (Ne.symm hj), if_neg hj, List.getD_eq_getElem?_getD]
  unfold blockBit
  rw [hset]
  by_cases hfirst : i / 8 = 0
  · have hbit : (0xe1 : UInt8).toNat.testBit (7 - i % 8) = reductionBit i := by
      have hsmall : i < 8 := by omega
      interval_cases i <;> rfl
    rw [if_pos hfirst, hfirst, UInt8.toNat_xor, Nat.testBit_xor, hbit]
  · have hnone : reductionBit i = false := decide_eq_false (by omega)
    rw [if_neg hfirst, hnone, Bool.xor_false]

/-- The last bit is the lowest of the last byte. -/
theorem lastBit_iff (v : Block) : byteAt v.val 15 &&& 1 ≠ 0 ↔ blockBit v 127 = true := by
  have hand : (byteAt v.val 15 &&& 1).toNat = (byteAt v.val 15).toNat % 2 := by
    rw [UInt8.toNat_and, show (1 : UInt8).toNat = 1 from rfl, Nat.and_one_is_mod]
  have hbit : blockBit v 127 = (byteAt v.val 15).toNat.testBit 0 := rfl
  rw [ne_eq, ← UInt8.toNat_inj, hand, hbit, Nat.testBit_zero, decide_eq_true_eq]
  have hzero : (0 : UInt8).toNat = 0 := by simp
  omega

/-! ## Residues -/

/-- The low part of the GHASH polynomial has a degree below 128. -/
theorem degree_low : ((X : (ZMod 2)[X]) ^ 7 + X ^ 2 + X + 1).degree < ((128 : ℕ) : WithBot ℕ) := by
  have hdegree : ((X : (ZMod 2)[X]) ^ 7 + X ^ 2 + X + 1).degree = 7 := by compute_degree!
  rw [hdegree]
  exact WithBot.coe_lt_coe.mpr (by decide : (7 : ℕ) < 128)

/-- The GHASH polynomial is monic. -/
theorem monic_modulus : modulus.Monic := by
  unfold modulus
  exact monic_X_pow_add degree_low

/-- The GHASH polynomial has degree 128. -/
theorem degree_modulus : modulus.degree = (128 : ℕ) := by
  unfold modulus
  rw [degree_add_eq_left_of_degree_lt, degree_X_pow]
  rw [degree_X_pow]
  exact degree_low

/-- The element of a block is the residue of its bits. -/
theorem element_eq (x : Block) : element x = residueOf modulus 128 (blockBit x) := rfl

/-- Blocks with the same bits are the same. -/
theorem block_ext {x y : Block} (h : ∀ i < 128, blockBit x i = blockBit y i) : x = y := by
  apply Subtype.ext
  apply List.ext_getElem (by rw [x.property, y.property])
  intro j hj hj'
  rw [← byteAt_eq_getElem hj, ← byteAt_eq_getElem hj', ← UInt8.toNat_inj]
  apply Nat.eq_of_testBit_eq
  intro k
  rw [x.property] at hj
  by_cases hk : k < 8
  · have hbit := h (8 * j + (7 - k)) (by omega)
    unfold blockBit at hbit
    rwa [show (8 * j + (7 - k)) / 8 = j by omega,
      show 7 - (8 * j + (7 - k)) % 8 = k by omega] at hbit
  · have hpow : 2 ^ 8 ≤ 2 ^ k := Nat.pow_le_pow_right Nat.two_pos (Nat.not_lt.mp hk)
    rw [Nat.testBit_lt_two_pow ((byteAt x.val j).toNat_lt.trans_le hpow),
      Nat.testBit_lt_two_pow ((byteAt y.val j).toNat_lt.trans_le hpow)]

/-- Different blocks stand for different residues. -/
theorem element_injective : Function.Injective element := fun _ _ h =>
  block_ext fun _ hi => residueOf_injective monic_modulus degree_modulus h hi

/-- The exclusive or of blocks is the sum of their elements. -/
theorem element_xor16 (a b : Block) : element (xor16 a b) = element a + element b := by
  rw [element_eq, element_eq, element_eq, ← residueOf_xor]
  exact residueOf_congr fun i hi => blockBit_xor16 a b hi

/-- The zero block is zero. -/
theorem element_zero : element (FixedBytes.zero 16) = 0 := by
  have hself : xor16 (FixedBytes.zero 16) (FixedBytes.zero 16) = FixedBytes.zero 16 := rfl
  have hsum := element_xor16 (FixedBytes.zero 16) (FixedBytes.zero 16)
  rw [hself] at hsum
  exact left_eq_add.mp hsum

/-! ## The product -/

/-- One round takes `v` to its product with the unknown. -/
theorem element_shift (v : Block) :
    element (if byteAt v.val 15 &&& 1 ≠ 0 then
      (shr1 v).set 0 (byteAt (shr1 v).val 0 ^^^ 0xe1) else shr1 v) =
      AdjoinRoot.root modulus * element v := by
  have hshift : residueOf modulus 128 (blockBit (shr1 v)) =
      residueOf modulus 128 (shiftBits (blockBit v)) :=
    residueOf_congr fun i hi => blockBit_shr1 v hi
  have hlow : residueOf modulus 128 reductionBit =
      AdjoinRoot.mk modulus (X ^ 7 + X ^ 2 + X + 1) := by
    have hplaces : (Finset.range 128).filter (reductionBit · = true) = {0, 1, 2, 7} := by decide
    unfold residueOf ofBits
    rw [← Finset.sum_filter, hplaces]
    congr 1
    simp
    ring
  have hmodulus : modulus = X ^ (127 + 1) + (X ^ 7 + X ^ 2 + X + 1) := by
    unfold modulus
    norm_num
  rw [element_eq v, root_mul_residueOf hmodulus]
  by_cases hbit : blockBit v 127 = true
  · rw [if_pos ((lastBit_iff v).mpr hbit), if_pos hbit, element_eq, ← hlow, ← hshift,
      ← residueOf_xor]
    exact residueOf_congr fun i hi => blockBit_reduce (shr1 v) hi
  · rw [if_neg (mt (lastBit_iff v).mp hbit), if_neg hbit, add_zero, element_eq]
    exact hshift

/-- The loop adds `v` for every bit of `x`, and multiplies it with the root each time. -/
theorem element_gfmulLoop (x : Block) (n i : ℕ) (z v : Block) :
    element (gfmulLoop x n i z v) = element z +
      (∑ j ∈ Finset.range n, if blockBit x (i + j) then AdjoinRoot.root modulus ^ j else 0) *
        element v := by
  induction n generalizing i z v with
  | zero => simp [gfmulLoop]
  | succ n ih =>
    have hnext : element (if blockBit x i then xor16 z v else z) =
        element z + (if blockBit x i then 1 else 0) * element v := by
      split
      · rw [element_xor16, one_mul]
      · rw [zero_mul, add_zero]
    have hpower : ∀ j, (if blockBit x (i + (j + 1)) then AdjoinRoot.root modulus ^ (j + 1) else 0) =
        (if blockBit x (i + 1 + j) then AdjoinRoot.root modulus ^ j else 0) *
          AdjoinRoot.root modulus := by
      intro j
      rw [show i + (j + 1) = i + 1 + j by omega, pow_succ, ite_mul, zero_mul]
    have hround : gfmulLoop x (n + 1) i z v =
        gfmulLoop x n (i + 1) (if blockBit x i then xor16 z v else z)
          (if byteAt v.val 15 &&& 1 ≠ 0 then
            (shr1 v).set 0 (byteAt (shr1 v).val 0 ^^^ 0xe1) else shr1 v) := rfl
    rw [hround, ih, element_shift, hnext, Finset.sum_range_succ', pow_zero,
      Finset.sum_congr rfl fun j _ => hpower j, ← Finset.sum_mul]
    simp only [Nat.add_zero]
    ring

/-- `gfmul` multiplies. -/
theorem element_gfmul (x y : Block) : element (gfmul x y) = element x * element y := by
  have hx : element x =
      ∑ j ∈ Finset.range 128, if blockBit x (0 + j) then AdjoinRoot.root modulus ^ j else 0 := by
    unfold element polynomial ofBits
    rw [map_sum]
    apply Finset.sum_congr rfl
    intro j _
    rw [Nat.zero_add, apply_ite (AdjoinRoot.mk modulus), map_pow, AdjoinRoot.mk_X, map_zero]
  unfold gfmul
  rw [element_gfmulLoop, element_zero, zero_add, ← hx]

/-- The product as a remainder of polynomials. -/
theorem polynomial_gfmul (x y : Block) :
    polynomial (gfmul x y) = polynomial x * polynomial y %ₘ modulus := by
  apply ofBits_eq_modByMonic monic_modulus degree_modulus
  rw [map_mul]
  exact element_gfmul x y

/-! ## The hash -/

/-- Only no bytes have no blocks. -/
theorem blockCount_eq_zero_iff (d : Bytes) : blockCount d = 0 ↔ d = [] := by
  unfold blockCount
  rw [← List.length_eq_zero_iff]
  omega

/-- The first block comes before the others. -/
theorem evaluation_of_ne_nil (y h : AdjoinRoot modulus) {d : Bytes} (hd : d ≠ []) :
    evaluation y h d = evaluation ((y + element (FixedBytes.ofBytes 16 d)) * h) h (d.drop 16) := by
  have hcount : blockCount d = blockCount (d.drop 16) + 1 := by
    have hpos := List.length_pos_iff.mpr hd
    unfold blockCount
    rw [List.length_drop]
    omega
  have hblock : ∀ i, paddedBlock d (i + 1) = paddedBlock (d.drop 16) i := by
    intro i
    unfold paddedBlock
    rw [List.drop_drop]
    congr 2
    omega
  have hfirst : paddedBlock d 0 = FixedBytes.ofBytes 16 d := rfl
  unfold evaluation
  rw [hcount, Finset.sum_range_succ', hfirst, Nat.sub_zero]
  simp only [hblock, Nat.add_sub_add_right]
  ring

/-- The loop evaluates the blocks of the bytes. -/
theorem element_ghashLoop (h : Block) (n : ℕ) (y : Block) (d : Bytes) (hn : d.length ≤ n) :
    element (ghashLoop h n y d) = evaluation (element y) (element h) d := by
  have hempty : ∀ y : AdjoinRoot modulus, evaluation y (element h) [] = y := by
    intro y
    unfold evaluation
    rw [(blockCount_eq_zero_iff []).mpr rfl, Finset.sum_range_zero, pow_zero, mul_one, add_zero]
  induction n generalizing y d with
  | zero =>
    obtain rfl := List.length_eq_zero_iff.mp (Nat.le_zero.mp hn)
    exact (hempty _).symm
  | succ n ih =>
    unfold ghashLoop
    by_cases hd : d = []
    · rw [if_pos hd, hd, hempty]
    · rw [if_neg hd, ih _ _ (by rw [List.length_drop]; omega), evaluation_of_ne_nil _ _ hd]
      unfold ghashBlock
      rw [element_gfmul, element_xor16]

/-- `ghash_data` evaluates the blocks of the bytes. -/
theorem element_ghashData (y h : Block) (d : Bytes) :
    element (ghashData y h d) = evaluation (element y) (element h) d :=
  element_ghashLoop h d.length y d (Nat.le_refl _)

/-- **`gfmul` is the product of the residues, and `ghash_data` evaluates a polynomial.** -/
theorem ghash_evaluates :
    Function.Injective element ∧ (∀ x y, element (xor16 x y) = element x + element y) ∧
    (∀ x y, element (gfmul x y) = element x * element y) ∧
    (∀ x y, polynomial (gfmul x y) = polynomial x * polynomial y %ₘ modulus) ∧
    (∀ x y, gfmul x y = gfmul y x) ∧
    (∀ x y z, gfmul (gfmul x y) z = gfmul x (gfmul y z)) ∧
    (∀ x y z, gfmul (xor16 x y) z = xor16 (gfmul x z) (gfmul y z)) ∧
    (∀ x y z, gfmul x (xor16 y z) = xor16 (gfmul x y) (gfmul x z)) ∧
    ∀ y h d, element (ghashData y h d) = evaluation (element y) (element h) d := by
  refine ⟨element_injective, element_xor16, element_gfmul, polynomial_gfmul, fun x y => ?_,
    fun x y z => ?_, fun x y z => ?_, fun x y z => ?_, element_ghashData⟩
  all_goals
    apply element_injective
    simp only [element_gfmul, element_xor16]
  · exact mul_comm _ _
  · exact mul_assoc _ _ _
  · exact add_mul _ _ _
  · exact mul_add _ _ _

/-- The tag: the blocks of the associated data and of the ciphertext, and the block of their
lengths. -/
theorem element_authTag (key : Block) (nonce : FixedBytes 12) (aad ciphertext : Bytes) :
    element (authTag key nonce aad ciphertext) =
      (evaluation (evaluation 0 (element (aesBlock key (FixedBytes.zero 16))) aad)
          (element (aesBlock key (FixedBytes.zero 16))) ciphertext +
        element ⟨be64 (aad.length * 8) ++ be64 (ciphertext.length * 8), rfl⟩) *
          element (aesBlock key (FixedBytes.zero 16)) +
        element (aesBlock key (counterBlock nonce)) := by
  unfold authTag ghashBlock
  dsimp only
  rw [element_xor16, element_gfmul, element_xor16, element_ghashData, element_ghashData,
    element_zero]

end XboxTls.Analysis
