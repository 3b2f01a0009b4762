import Mathlib.Data.List.Prime
import Mathlib.NumberTheory.LucasPrimality

/-!
# Primes by Lucas's test

Whether a number is prime follows from a witness `a` and from the prime factors of the number
before it, each as often as it divides.  The powers of the test are taken by squares modulo the
number, so that the test can be evaluated for primes of several hundred bits.
-/

set_option autoImplicit false

namespace Programs

/-- Modulo `m`, the power of `a` to the `count` bits of `e` from bit `i` on. -/
def powMod (m a e : ℕ) : ℕ → ℕ → ℕ
  | _, 0 => 1 % m
  | i, count + 1 => powMod m a e (i + 1) count ^ 2 * a ^ (e / 2 ^ i % 2) % m

/-- The loop over the bits of the exponent computes the power. -/
theorem powMod_eq (m a e i count : ℕ) :
    powMod m a e i count = a ^ (e / 2 ^ i % 2 ^ count) % m := by
  induction count generalizing i with
  | zero => rw [powMod, pow_zero 2, Nat.mod_one, pow_zero]
  | succ count ih =>
    have hbits : e / 2 ^ i % 2 ^ (count + 1) =
        2 * (e / 2 ^ (i + 1) % 2 ^ count) + e / 2 ^ i % 2 := by
      rw [pow_succ' 2 count, Nat.mod_mul, Nat.div_div_eq_div_mul, ← pow_succ, Nat.add_comm]
    have hsquare := (Nat.mod_modEq (a ^ (e / 2 ^ (i + 1) % 2 ^ count)) m).pow 2
    rw [powMod, ih, hbits, pow_add a, pow_mul' a]
    exact hsquare.mul_right _

/-- The powers to exponents that are not above `m`. -/
theorem powMod_of_le {m e : ℕ} (he : e ≤ m) (a : ℕ) :
    powMod m a e 0 (m.log2 + 1) = a ^ e % m := by
  rw [powMod_eq, pow_zero, Nat.div_one, Nat.mod_eq_of_lt (he.trans_lt Nat.lt_log2_self)]

/-- The test of `p` with the witness `a` and the prime factors `qs` of `p - 1`. -/
def lucasTest (p a : ℕ) (qs : List ℕ) : Bool :=
  decide (1 < p) && decide (qs.prod = p - 1) &&
    decide (powMod p a (p - 1) 0 (p.log2 + 1) = 1) &&
    qs.all fun q => decide (powMod p a ((p - 1) / q) 0 (p.log2 + 1) ≠ 1)

/-- A power is one in the ring of residues exactly where its residue is 1. -/
theorem natCast_pow_eq_one_iff {p : ℕ} (hp : 1 < p) (a e : ℕ) :
    (a : ZMod p) ^ e = 1 ↔ a ^ e % p = 1 := by
  rw [← Nat.cast_pow, ← Nat.cast_one, ZMod.natCast_eq_natCast_iff', Nat.mod_eq_of_lt hp]

/-- A number that passes the test is prime. -/
theorem prime_of_lucasTest {p : ℕ} (a : ℕ) (qs : List ℕ) (hprime : ∀ q ∈ qs, q.Prime)
    (htest : lucasTest p a qs = true) : p.Prime := by
  unfold lucasTest at htest
  simp only [Bool.and_eq_true, decide_eq_true_eq, List.all_eq_true] at htest
  obtain ⟨⟨⟨hp, hprod⟩, hone⟩, hother⟩ := htest
  apply lucas_primality p (a : ZMod p)
  · rw [natCast_pow_eq_one_iff hp, ← powMod_of_le (Nat.sub_le p 1)]
    exact hone
  · intro q hq hdvd
    have hmem : q ∈ qs := by
      rw [← hprod] at hdvd
      exact mem_list_primes_of_dvd_prod hq.prime (fun r hr => (hprime r hr).prime) hdvd
    have hle : (p - 1) / q ≤ p := (Nat.div_le_self _ _).trans (Nat.sub_le p 1)
    rw [ne_eq, natCast_pow_eq_one_iff hp, ← powMod_of_le hle]
    exact hother q hmem

/-- A number with its witness and the prime factors of the number before it. -/
structure LucasStep where
  p : ℕ
  a : ℕ
  qs : List ℕ

/-- The numbers pass the test one after the other, with factors that are known before. -/
def lucasTests (known : List ℕ) : List LucasStep → Bool
  | [] => true
  | c :: cs =>
    (c.qs.all fun q => decide (q ∈ known)) && lucasTest c.p c.a c.qs &&
      lucasTests (c.p :: known) cs

/-- The numbers of a chain of tests are prime, if those that it starts from are. -/
theorem prime_of_lucasTests {known : List ℕ} (hknown : ∀ q ∈ known, q.Prime)
    {cs : List LucasStep} (htests : lucasTests known cs = true) {c : LucasStep} (hc : c ∈ cs) :
    c.p.Prime := by
  induction cs generalizing known with
  | nil => cases hc
  | cons c' cs ih =>
    unfold lucasTests at htests
    simp only [Bool.and_eq_true, List.all_eq_true, decide_eq_true_eq] at htests
    obtain ⟨⟨hfactors, htest⟩, hrest⟩ := htests
    have hprime := prime_of_lucasTest c'.a c'.qs (fun q hq => hknown q (hfactors q hq)) htest
    rcases List.mem_cons.mp hc with rfl | hmem
    · exact hprime
    · exact ih (List.forall_mem_cons.mpr ⟨hprime, hknown⟩) hrest hmem

end Programs
