import Mathlib.Data.Nat.Digits.Lemmas
import Mathlib.Tactic.Ring

/-!
# Numbers in octets

Natural numbers as strings of octets, the most significant first: the number of a string and
the string of a given length.
-/

set_option autoImplicit false

namespace Programs

/-- The number that a string of octets stands for. -/
def ofOctets (s : List UInt8) : ℕ := Nat.ofDigits 256 (s.reverse.map UInt8.toNat)

/-- The `n` low octets of a number. -/
def toOctets : ℕ → ℕ → List UInt8
  | 0, _ => []
  | n + 1, x => toOctets n (x / 256) ++ [UInt8.ofNat x]

/-- No octets are zero. -/
@[simp] theorem ofOctets_nil : ofOctets [] = 0 := rfl

/-- The octets in front count more. -/
theorem ofOctets_append (a b : List UInt8) :
    ofOctets (a ++ b) = ofOctets b + 256 ^ b.length * ofOctets a := by
  simp only [ofOctets, List.reverse_append, List.map_append, Nat.ofDigits_append,
    List.length_map, List.length_reverse]

/-- One octet is its value. -/
@[simp] theorem ofOctets_singleton (b : UInt8) : ofOctets [b] = b.toNat := by
  simp [ofOctets]

/-- The last octet counts once. -/
theorem ofOctets_concat (a : List UInt8) (b : UInt8) :
    ofOctets (a ++ [b]) = b.toNat + 256 * ofOctets a := by
  rw [ofOctets_append, ofOctets_singleton, List.length_singleton, pow_one]

/-- `n` octets are less than `256 ^ n`. -/
theorem ofOctets_lt (s : List UInt8) : ofOctets s < 256 ^ s.length := by
  induction s using List.reverseRecOn with
  | nil => simp
  | append_singleton s b ih =>
    have hb := b.toNat_lt
    rw [ofOctets_concat, List.length_append, List.length_singleton, pow_succ 256 s.length]
    omega

/-- Zero octets are zero. -/
@[simp] theorem ofOctets_replicate_zero (n : ℕ) : ofOctets (List.replicate n 0) = 0 := by
  induction n with
  | zero => rfl
  | succ n ih =>
    rw [List.replicate_succ', ofOctets_concat, ih]
    rfl

/-- There are as many octets as asked for. -/
@[simp] theorem length_toOctets (n x : ℕ) : (toOctets n x).length = n := by
  induction n generalizing x with
  | zero => rfl
  | succ n ih => simp [toOctets, ih]

/-- The octets of a number give back what fits into them. -/
theorem ofOctets_toOctets (n x : ℕ) : ofOctets (toOctets n x) = x % 256 ^ n := by
  induction n generalizing x with
  | zero => simp [toOctets, Nat.mod_one]
  | succ n ih =>
    have hlow : (UInt8.ofNat x).toNat = x % 256 := by simp
    rw [toOctets, ofOctets_concat, ih, hlow, pow_succ' 256 n, Nat.mod_mul]

/-- The most significant octet and the others. -/
theorem toOctets_succ (n x : ℕ) :
    toOctets (n + 1) x = UInt8.ofNat (x / 256 ^ n) :: toOctets n x := by
  induction n generalizing x with
  | zero => simp [toOctets]
  | succ n ih =>
    rw [toOctets, ih, Nat.div_div_eq_div_mul, ← pow_succ', List.cons_append]
    rfl

/-- Reading from the most significant octet on. -/
theorem foldl_eq_ofOctets (s : List UInt8) (x : ℕ) :
    s.foldl (fun v b => v * 256 + b.toNat) x = x * 256 ^ s.length + ofOctets s := by
  induction s using List.reverseRecOn with
  | nil => simp
  | append_singleton s b ih =>
    rw [List.foldl_concat, ih, ofOctets_concat, List.length_append, List.length_singleton,
      pow_succ]
    ring

/-- A string is determined by its length and its number. -/
theorem ofOctets_inj {a b : List UInt8} (hlen : a.length = b.length)
    (h : ofOctets a = ofOctets b) : a = b := by
  have hdigit : ∀ s : List UInt8, ∀ d ∈ s.reverse.map UInt8.toNat, d < 256 := by
    intro s d hd
    obtain ⟨b, -, rfl⟩ := List.mem_map.mp hd
    exact b.toNat_lt
  have hmap := Nat.ofDigits_inj_of_len_eq (by omega : 1 < 256) (by simpa using hlen) (hdigit a)
    (hdigit b) h
  have hrev := List.map_injective_iff.mpr (fun _ _ => UInt8.toNat_inj.mp) hmap
  exact List.reverse_injective hrev

/-- The number of some octets gives them back. -/
theorem toOctets_ofOctets (s : List UInt8) : toOctets s.length (ofOctets s) = s := by
  apply ofOctets_inj (length_toOctets _ _)
  rw [ofOctets_toOctets, Nat.mod_eq_of_lt (ofOctets_lt s)]

end Programs
