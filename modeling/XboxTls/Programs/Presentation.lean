import Mathlib.Algebra.Group.Nat.Defs
import Mathlib.Data.List.Basic
import Mathlib.Tactic.Common

/-!
# Decoders for length-prefixed formats

A decoder takes bytes off the front of a string or fails.  `Reads d b a` says that `d`
takes exactly `b` and gives `a`, whatever follows; it composes along `>>=`, so that the
correctness of an encoder is shown piece by piece.  Vectors are prefixed with their length
in bytes, and a decoder of their elements has to use up exactly these bytes.
-/

set_option autoImplicit false

namespace Programs

/-- A decoder of values from the front of a byte string. -/
abbrev Decoder : Type → Type := StateT (List UInt8) Option

namespace Decoder

variable {α β : Type}

/-! ## Decoders -/

/-- A decoder that has to use up the whole string. -/
def whole (d : Decoder α) (b : List UInt8) : Option α :=
  match d.run b with
  | some (a, []) => some a
  | _ => none

/-- The next `n` bytes. -/
def raw (n : ℕ) : Decoder (List UInt8) := fun b =>
  if n ≤ b.length then some (b.take n, b.drop n) else none

/-- A number of `k` bytes, the most significant one first. -/
def uint (k : ℕ) : Decoder ℕ := do
  let b ← raw k
  pure (b.foldl (fun v x => v * 256 + x.toNat) 0)

/-- The condition, or no value. -/
def require (p : Prop) [Decidable p] : Decoder Unit := fun b => if p then some ((), b) else none

/-- A value that was computed, or none. -/
def ofOption (o : Option α) : Decoder α := fun b => o.map fun a => (a, b)

/-- `opaque v<lo..hi>` with a length of `k` bytes. -/
def bounded (k lo hi : ℕ) : Decoder (List UInt8) := do
  let n ← uint k
  require (lo ≤ n ∧ n ≤ hi)
  raw n

/-- The elements of a string that holds nothing else. -/
def elements (d : Decoder α) : ℕ → List UInt8 → Option (List α)
  | 0, b => if b = [] then some [] else none
  | fuel + 1, b =>
    if b = [] then some []
    else match d.run b with
      | none => none
      | some (a, rest) => (elements d fuel rest).map (a :: ·)

/-- `T v<lo..hi>` with a length of `k` bytes. -/
def vector (k lo hi : ℕ) (d : Decoder α) : Decoder (List α) := do
  let b ← bounded k lo hi
  ofOption (elements d b.length b)

/-! ## What a decoder reads -/

/-- `d` takes `b` and gives `a`, whatever follows. -/
def Reads (d : Decoder α) (b : List UInt8) (a : α) : Prop :=
  ∀ rest, d.run (b ++ rest) = some (a, rest)

/-- A decoder that reads the encoding of a value reads it as a whole. -/
theorem Reads.whole {d : Decoder α} {b : List UInt8} {a : α} (h : Reads d b a) :
    whole d b = some a := by
  have hrun := h []
  rw [List.append_nil] at hrun
  unfold Decoder.whole
  rw [hrun]

/-- `pure` reads nothing. -/
theorem reads_pure (a : α) : Reads (pure a : Decoder α) [] a := fun _ => rfl

/-- Two decoders read their encodings one behind the other. -/
theorem reads_bind {d : Decoder α} {f : α → Decoder β} {b c : List UInt8} {a : α} {r : β}
    (h : Reads d b a) (hf : Reads (f a) c r) : Reads (d >>= f) (b ++ c) r := by
  intro rest
  rw [List.append_assoc]
  show (d.run (b ++ (c ++ rest)) >>= fun x => (f x.1).run x.2) = some (r, rest)
  rw [h]
  exact hf rest

/-- A decoder whose last step gives the value away. -/
theorem reads_bind_pure {d : Decoder α} {f : α → Decoder β} {b : List UInt8} {a : α} {r : β}
    (h : Reads d b a) (hf : Reads (f a) [] r) : Reads (d >>= f) b r := by
  have hboth := reads_bind h hf
  rwa [List.append_nil] at hboth

/-- A condition that holds reads nothing. -/
theorem reads_require {p : Prop} [Decidable p] (h : p) : Reads (require p) [] () := by
  intro rest
  show (if p then some ((), rest) else none) = _
  rw [if_pos h]

/-- A value that is there reads nothing. -/
theorem reads_ofOption {o : Option α} {a : α} (h : o = some a) : Reads (ofOption o) [] a := by
  intro rest
  rw [h]
  rfl

/-- Bytes of a fixed number are read as they are. -/
theorem reads_raw (b : List UInt8) : Reads (raw b.length) b b := by
  intro rest
  show (if b.length ≤ (b ++ rest).length then _ else none) = _
  rw [if_pos (by rw [List.length_append]; omega), List.take_left, List.drop_left]

/-! ## Numbers -/

/-- The last `k` bytes of a number. -/
def uintBytes : ℕ → ℕ → List UInt8
  | 0, _ => []
  | k + 1, v => uintBytes k (v / 256) ++ [UInt8.ofNat v]

/-- A number in `k` bytes has `k` bytes. -/
@[simp] theorem uintBytes_length (k v : ℕ) : (uintBytes k v).length = k := by
  induction k generalizing v with
  | zero => rfl
  | succ k ih => rw [uintBytes, List.length_append, ih, List.length_singleton]

/-- The bytes of a number that fits give it back. -/
theorem foldl_uintBytes (k v : ℕ) (h : v < 256 ^ k) :
    (uintBytes k v).foldl (fun v x => v * 256 + x.toNat) 0 = v := by
  induction k generalizing v with
  | zero =>
    rw [Nat.pow_zero] at h
    have hzero : v = 0 := by omega
    rw [hzero]
    rfl
  | succ k ih =>
    have hdiv : v / 256 < 256 ^ k := Nat.div_lt_of_lt_mul (by rw [Nat.pow_succ] at h; omega)
    rw [uintBytes, List.foldl_append, ih _ hdiv]
    simp only [List.foldl_cons, List.foldl_nil, UInt8.toNat_ofNat']
    omega

/-- A number that fits is read from its bytes. -/
theorem reads_uint {k v : ℕ} (h : v < 256 ^ k) : Reads (uint k) (uintBytes k v) v := by
  have hraw := reads_raw (uintBytes k v)
  rw [uintBytes_length] at hraw
  apply reads_bind_pure hraw
  rw [foldl_uintBytes k v h]
  exact reads_pure v

/-! ## Vectors -/

/-- A string behind its length. -/
def prefixed (k : ℕ) (b : List UInt8) : List UInt8 := uintBytes k b.length ++ b

/-- A prefix adds its own length. -/
@[simp] theorem prefixed_length (k : ℕ) (b : List UInt8) :
    (prefixed k b).length = k + b.length := by
  rw [prefixed, List.length_append, uintBytes_length]

/-- A string within the bounds is read from behind its length. -/
theorem reads_bounded {k lo hi : ℕ} {b : List UInt8} (hk : b.length < 256 ^ k)
    (hlo : lo ≤ b.length) (hhi : b.length ≤ hi) :
    Reads (bounded k lo hi) (prefixed k b) b := by
  apply reads_bind (reads_uint hk)
  rw [← List.nil_append b]
  exact reads_bind (reads_require ⟨hlo, hhi⟩) (reads_raw b)

/-- Element by element, when each one is encoded as at least one byte. -/
theorem elements_flatMap {d : Decoder α} {enc : α → List UInt8} (as : List α)
    (h : ∀ a ∈ as, Reads d (enc a) a ∧ enc a ≠ []) (fuel : ℕ)
    (hfuel : (as.flatMap enc).length ≤ fuel) :
    elements d fuel (as.flatMap enc) = some as := by
  induction as generalizing fuel with
  | nil => cases fuel <;> rfl
  | cons a as ih =>
    obtain ⟨hreads, hne⟩ := h a (List.mem_cons_self ..)
    have hpos : 0 < (enc a).length := List.length_pos_of_ne_nil hne
    rw [List.flatMap_cons, List.length_append] at hfuel
    rw [List.flatMap_cons]
    cases fuel with
    | zero => omega
    | succ fuel =>
      have hrest := ih (fun b hb => h b (List.mem_cons_of_mem _ hb)) fuel (by omega)
      unfold elements
      rw [if_neg (by simp [hne]), hreads]
      dsimp only
      rw [hrest]
      rfl

/-- A vector within the bounds is read from behind its length, if each member is read. -/
theorem reads_vector {d : Decoder α} {enc : α → List UInt8} {k lo hi : ℕ} {as : List α}
    (h : ∀ a ∈ as, Reads d (enc a) a ∧ enc a ≠ []) (hk : (as.flatMap enc).length < 256 ^ k)
    (hlo : lo ≤ (as.flatMap enc).length) (hhi : (as.flatMap enc).length ≤ hi) :
    Reads (vector k lo hi d) (prefixed k (as.flatMap enc)) as := by
  apply reads_bind_pure (reads_bounded hk hlo hhi)
  exact reads_ofOption (elements_flatMap as h _ (Nat.le_refl _))

end Decoder

end Programs
