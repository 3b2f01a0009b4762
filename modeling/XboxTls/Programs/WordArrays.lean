import XboxTls.Programs.Guarded
import XboxTls.Programs.Limbs

/-!
# Numbers in fixed arrays of words

A number in an array of `cap` words with the number of its words in use.  The routines read and
write the array word by word, with carries and borrows in 64 bits, and fault where they leave it.
An array whose words in use are the limbs `l`, and whose other words are zero, `Holds` them; every
routine takes arrays that hold limbs to one that holds what the routine on limbs computes.
-/

set_option autoImplicit false

namespace Programs

/-- The words, of which the first `n` are in use. -/
structure WordArray (cap : ℕ) where
  w : { l : List UInt32 // l.length = cap }
  n : ℕ

namespace WordArray

variable {ε : Type} {cap : ℕ}

/-! ## Words -/

/-- No word is in use, and all are zero. -/
def empty (cap : ℕ) : WordArray cap := ⟨⟨List.replicate cap 0, List.length_replicate⟩, 0⟩

/-- `a.w[i]`. -/
def word (a : WordArray cap) (i : ℕ) : Guarded ε UInt32 := Guarded.getAt a.w.val i

/-- `i < a.n ? a.w[i] : 0`. -/
def wordOr (a : WordArray cap) (i : ℕ) : Guarded ε UInt32 := if i < a.n then a.word i else pure 0

/-- `a.w[i] = x`. -/
def setWord (a : WordArray cap) (i : ℕ) (x : UInt32) : Guarded ε (WordArray cap) := do
  let w ← Guarded.store a.w i x
  pure { a with w := w }

/-! ## Routines -/

/-- The count without the zero words at its end. -/
def trimLoop (a : WordArray cap) : ℕ → Guarded ε ℕ
  | 0 => pure 0
  | n + 1 => do
    let x ← a.word n
    if x = 0 then trimLoop a n else pure (n + 1)

def trim (a : WordArray cap) : Guarded ε (WordArray cap) := do
  let n ← trimLoop a a.n
  pure { a with n := n }

/-- The comparison of the words below `i`, from the top down. -/
def cmpFrom (a b : WordArray cap) : ℕ → Guarded ε Int
  | 0 => pure 0
  | i + 1 => do
    let x ← a.word i
    let y ← b.word i
    if x ≠ y then pure (if x < y then -1 else 1) else cmpFrom a b i

/-- First the counts, and then the words. -/
def cmp (a b : WordArray cap) : Guarded ε Int :=
  if a.n ≠ b.n then pure (if a.n < b.n then -1 else 1) else cmpFrom a b a.n

/-- One word of a difference, and the borrow. -/
def subWord (x y : UInt32) (borrow : UInt64) : UInt32 × UInt64 :=
  let av := x.toUInt64
  let bv := y.toUInt64 + borrow
  if av ≥ bv then ((av - bv).toUInt32, 0) else ((((1 : UInt64) <<< 32) + av - bv).toUInt32, 1)

/-- The words from `i` on without those of `b`. -/
def subLoop (b : WordArray cap) : ℕ → ℕ → UInt64 → WordArray cap → Guarded ε (WordArray cap)
  | 0, _, _, a => pure a
  | count + 1, i, borrow, a => do
    let x ← a.word i
    let y ← b.wordOr i
    let d := subWord x y borrow
    let a ← a.setWord i d.1
    subLoop b count (i + 1) d.2 a

def sub (a b : WordArray cap) : Guarded ε (WordArray cap) := do
  let a ← subLoop b a.n 0 0 a
  a.trim

/-- One word of a sum, and the carry. -/
def addWord (x y : UInt32) (carry : UInt64) : UInt32 × UInt64 :=
  let s := carry + x.toUInt64 + y.toUInt64
  (s.toUInt32, s >>> 32)

/-- The words from `i` on of the sum, and the carry behind them. -/
def addLoop (a b : WordArray cap) :
    ℕ → ℕ → UInt64 → WordArray cap → Guarded ε (WordArray cap × UInt64)
  | 0, _, carry, t => pure (t, carry)
  | count + 1, i, carry, t => do
    let x ← a.wordOr i
    let y ← b.wordOr i
    let s := addWord x y carry
    let t ← t.setWord i s.1
    addLoop a b count (i + 1) s.2 t

/-- `t.n > m.n || cmp(t, m) >= 0`. -/
def atLeast (t m : WordArray cap) : Guarded ε Bool :=
  if t.n > m.n then pure true
  else do
    let c ← cmp t m
    pure (decide (c ≥ 0))

/-- The sum of two numbers below `m`, reduced. -/
def addMod (a b m : WordArray cap) : Guarded ε (WordArray cap) := do
  let (t, carry) ← addLoop a b m.n 0 0 { empty cap with n := m.n + 1 }
  let t ← t.setWord m.n carry.toUInt32
  let t ← t.trim
  let tooBig ← atLeast t m
  if tooBig then sub t m else pure t

/-- The difference of two numbers below `m`, reduced. -/
def subMod (a b m : WordArray cap) : Guarded ε (WordArray cap) := do
  let c ← cmp a b
  if c ≥ 0 then sub a b
  else
    let d ← sub b a
    sub m d

/-- The number of bits. -/
def bits (a : WordArray cap) : Guarded ε ℕ :=
  if a.n = 0 then pure 0
  else do
    let v ← a.word (a.n - 1)
    pure ((a.n - 1) * 32 + Limbs.topBit v 32)

/-- Bit `i`. -/
def bit (a : WordArray cap) (i : ℕ) : Guarded ε Bool :=
  if i / 32 < a.n then do
    let v ← a.word (i / 32)
    pure (decide ((v >>> UInt32.ofNat (i % 32)) &&& 1 ≠ 0))
  else pure false

/-- `if (set) r = f(r);` -/
def updateIf (set : Bool) (f : WordArray cap → Guarded ε (WordArray cap)) (r : WordArray cap) :
    Guarded ε (WordArray cap) :=
  if set then f r else pure r

/-- Bits `i` to `i + count` of `b`: double `a`, and add it where a bit is set. -/
def mulLoop (b m : WordArray cap) :
    ℕ → ℕ → WordArray cap → WordArray cap → Guarded ε (WordArray cap)
  | 0, _, r, _ => pure r
  | count + 1, i, r, a => do
    let set ← b.bit i
    let r ← updateIf set (addMod · a m) r
    let a ← addMod a a m
    mulLoop b m count (i + 1) r a

/-- The product, reduced. -/
def mulMod (a b m : WordArray cap) : Guarded ε (WordArray cap) := do
  let nb ← b.bits
  mulLoop b m nb 0 (empty cap) a

/-- The number one. -/
def one (cap : ℕ) : Guarded ε (WordArray cap) := setWord { empty cap with n := 1 } 0 1

/-- Bits `i` to `i + count` of `e`: square `x`, and multiply by it where a bit is set. -/
def powBitsLoop (e m : WordArray cap) :
    ℕ → ℕ → WordArray cap → WordArray cap → Guarded ε (WordArray cap)
  | 0, _, r, _ => pure r
  | count + 1, i, r, x => do
    let set ← e.bit i
    let r ← updateIf set (mulMod · x m) r
    let x ← mulMod x x m
    powBitsLoop e m count (i + 1) r x

/-- The power with the exponent in words. -/
def powBits (a e m : WordArray cap) : Guarded ε (WordArray cap) := do
  let r ← one cap
  let nb ← e.bits
  powBitsLoop e m nb 0 r a

/-- Squares of `x` for the bits of `e` from the lowest on, in at most `fuel` rounds. -/
def powLoop (m : WordArray cap) :
    ℕ → UInt32 → WordArray cap → WordArray cap → Guarded ε (WordArray cap)
  | 0, e, r, _ => if e = 0 then pure r else Guarded.fault
  | fuel + 1, e, r, x =>
    if e = 0 then pure r
    else do
      let r ← updateIf (e &&& 1 ≠ 0) (mulMod · x m) r
      let e := e >>> 1
      let x ← updateIf (e ≠ 0) (fun x => mulMod x x m) x
      powLoop m fuel e r x

/-- The power with the exponent in one word. -/
def powWord (a : WordArray cap) (e : UInt32) (m : WordArray cap) : Guarded ε (WordArray cap) := do
  let r ← one cap
  powLoop m 32 e r a

/-- The octets of `s` from the last but `i` on, each at its place in its word. -/
def fromOctetsLoop (s : List UInt8) : ℕ → ℕ → WordArray cap → Guarded ε (WordArray cap)
  | 0, _, a => pure a
  | count + 1, i, a => do
    let o ← Guarded.getAt s (s.length - 1 - i)
    let x ← a.word (i / 4)
    let a ← a.setWord (i / 4) (x ||| (o.toUInt32 <<< UInt32.ofNat (i % 4 * 8)))
    fromOctetsLoop s count (i + 1) a

/-- The number in octets, the most significant first; zero if it may have more than `max` words. -/
def fromOctets (cap max : ℕ) (s : List UInt8) : Guarded ε (WordArray cap) :=
  if (s.length + 3) / 4 > max then pure (empty cap)
  else do
    let a ← fromOctetsLoop s s.length 0 { empty cap with n := (s.length + 3) / 4 }
    a.trim

/-- A number of one word. -/
def ofWord (cap : ℕ) (v : UInt32) : Guarded ε (WordArray cap) :=
  if v ≠ 0 then setWord { empty cap with n := 1 } 0 v else pure (empty cap)

/-! ## Arrays that hold limbs -/

/-- The words in use are `l`. -/
structure Uses (a : WordArray cap) (l : Limbs) : Prop where
  words : ∃ back, a.w.val = l ++ back
  count : a.n = l.length

/-- The words in use are `l`, and all others are zero. -/
structure Holds (a : WordArray cap) (l : Limbs) : Prop where
  words : a.w.val = l ++ List.replicate (cap - l.length) 0
  count : a.n = l.length

/-- The computation does not fault, and the array that it returns holds `l`. -/
def Returns (x : Guarded ε (WordArray cap)) (l : Limbs) : Prop := ∃ r, x = pure r ∧ Holds r l

variable {a b m t : WordArray cap} {l k j : Limbs}

/-- The limbs fit the array. -/
theorem Holds.length_le (h : Holds a l) : l.length ≤ cap := by
  have hlen := congrArg List.length h.words
  rw [a.w.property, List.length_append, List.length_replicate] at hlen
  omega

/-- Limbs that an array holds are those in use. -/
theorem Holds.uses (h : Holds a l) : Uses a l := ⟨⟨_, h.words⟩, h.count⟩

/-- The limbs in use fit the array. -/
theorem Uses.length_le (h : Uses a l) : l.length ≤ cap := by
  obtain ⟨back, hwords⟩ := h.words
  have hlen := congrArg List.length hwords
  rw [a.w.property, List.length_append] at hlen
  omega

/-- The empty array holds no limbs. -/
theorem holds_empty : Holds (empty cap) [] := ⟨rfl, rfl⟩

/-- Zeros at the end are what is read behind the list. -/
theorem getD_append_zeros (l : Limbs) (n i : ℕ) :
    (l ++ List.replicate n 0).getD i 0 = l.getD i 0 := by
  rw [List.getD_eq_getElem?_getD, List.getD_eq_getElem?_getD]
  by_cases hi : i < l.length
  · rw [List.getElem?_append_left hi]
  · rw [List.getElem?_append_right (Nat.not_lt.mp hi), List.getElem?_replicate,
      List.getElem?_eq_none (Nat.not_lt.mp hi)]
    split <;> rfl

/-- A read inside the array gives the word. -/
theorem word_eq (a : WordArray cap) {i : ℕ} (hi : i < cap) :
    a.word (ε := ε) i = pure (a.w.val.getD i 0) := by
  have hlen : i < a.w.val.length := by rwa [a.w.property]
  unfold word
  rw [Guarded.getAt_eq hlen, List.getD_eq_getElem?_getD, List.getElem?_eq_getElem hlen,
    Option.getD_some]

/-- A read inside the array gives the limb, or zero behind the limbs. -/
theorem Holds.word (h : Holds a l) {i : ℕ} (hi : i < cap) :
    a.word (ε := ε) i = pure (l.getD i 0) := by
  rw [word_eq a hi, h.words, getD_append_zeros]

/-- A read of a word in use gives the limb. -/
theorem Uses.word (h : Uses a l) {i : ℕ} (hi : i < l.length) :
    a.word (ε := ε) i = pure (l.getD i 0) := by
  have hle := h.length_le
  obtain ⟨back, hwords⟩ := h.words
  rw [word_eq a (by omega), hwords, List.getD_eq_getElem?_getD, List.getElem?_append_left hi,
    ← List.getD_eq_getElem?_getD]

/-- A read that is zero behind the words in use gives the limb. -/
theorem Holds.wordOr (h : Holds a l) (i : ℕ) : a.wordOr (ε := ε) i = pure (l.getD i 0) := by
  have hle := h.length_le
  unfold WordArray.wordOr
  rw [h.count]
  by_cases hi : i < l.length
  · rw [if_pos hi, h.word (by omega)]
  · rw [if_neg hi, List.getD_eq_getElem?_getD, List.getElem?_eq_none (Nat.not_lt.mp hi)]
    rfl

/-- A write inside the array changes the one word. -/
theorem setWord_of_lt (a : WordArray cap) {i : ℕ} (hi : i < cap) (x : UInt32) :
    ∃ r, a.setWord (ε := ε) i x = pure r ∧ r.w.val = a.w.val.set i x ∧ r.n = a.n := by
  refine ⟨⟨⟨a.w.val.set i x, by rw [List.length_set, a.w.property]⟩, a.n⟩, ?_, rfl, rfl⟩
  unfold setWord Guarded.store
  rw [if_pos hi, pure_bind]

/-- A word that is stored behind `front` takes the place of the one there. -/
theorem setWord_eq {front back : Limbs} {x y : UInt32} (h : a.w.val = front ++ y :: back) :
    ∃ r, a.setWord (ε := ε) front.length x = pure r ∧ r.w.val = front ++ x :: back ∧
      r.n = a.n := by
  have hlen := congrArg List.length h
  rw [a.w.property, List.length_append, List.length_cons] at hlen
  obtain ⟨r, hr, hrw, hrn⟩ := setWord_of_lt (ε := ε) a (show front.length < cap by omega) x
  refine ⟨r, hr, ?_, hrn⟩
  rw [hrw, h, List.set_append_right _ _ (Nat.le_refl _), Nat.sub_self, List.set_cons_zero]

/-! ## The routines on arrays that hold limbs -/

/-- A zero limb at the end is dropped, any other ends the trimming. -/
theorem trim_concat (l : Limbs) (x : UInt32) :
    Limbs.trim (l ++ [x]) = if x = 0 then Limbs.trim l else l ++ [x] := by
  unfold Limbs.trim
  by_cases hx : x = 0
  · rw [if_pos hx, List.rdropWhile_concat_pos (fun y => decide (y = 0)) l x (decide_eq_true hx)]
  · rw [if_neg hx, List.rdropWhile_concat_neg (fun y => decide (y = 0)) l x (by simpa using hx)]

/-- Zero words alone stand between the words that are left and the end. -/
theorem trim_append_zeros (l : Limbs) :
    Limbs.trim l ++ List.replicate (l.length - (Limbs.trim l).length) 0 = l := by
  induction l using List.reverseRecOn with
  | nil => rfl
  | append_singleton l x ih =>
    rw [trim_concat]
    by_cases hx : x = 0
    · have hle : (Limbs.trim l).length ≤ l.length := by
        have hlen := congrArg List.length ih
        rw [List.length_append] at hlen
        omega
      rw [if_pos hx, List.length_append, List.length_singleton, Nat.sub_add_comm hle,
        List.replicate_succ', ← List.append_assoc, ih, hx]
    · rw [if_neg hx, Nat.sub_self]
      exact List.append_nil _

/-- The loop counts the limbs that are left when the zeros are dropped. -/
theorem Holds.trimLoop (h : Holds a l) {n : ℕ} (hn : n ≤ l.length) :
    trimLoop (ε := ε) a n = pure (Limbs.trim (l.take n)).length := by
  have hle := h.length_le
  induction n with
  | zero => rfl
  | succ n ih =>
    have hget : l.getD n 0 = l[n] := by
      rw [List.getD_eq_getElem?_getD, List.getElem?_eq_getElem hn, Option.getD_some]
    unfold WordArray.trimLoop
    rw [h.word (by omega), pure_bind, hget, List.take_succ_eq_append_getElem hn, trim_concat]
    by_cases hx : l[n] = 0
    · rw [if_pos hx, if_pos hx]
      exact ih (by omega)
    · rw [if_neg hx, if_neg hx, List.length_append, List.length_take, List.length_singleton,
        Nat.min_eq_left (by omega)]

/-- The array is trimmed to the limbs without the zeros at their end. -/
theorem Holds.trim (h : Holds a l) : Returns (ε := ε) a.trim (Limbs.trim l) := by
  have hzeros := trim_append_zeros l
  have hle := h.length_le
  have hlen := congrArg List.length hzeros
  rw [List.length_append, List.length_replicate] at hlen
  refine ⟨{ a with n := (Limbs.trim l).length }, ?_, ?_, rfl⟩
  · unfold WordArray.trim
    rw [h.count, h.trimLoop (Nat.le_refl _), List.take_length, pure_bind]
  · show a.w.val = _
    rw [h.words]
    conv_lhs => rw [← hzeros]
    rw [List.append_assoc, ← List.replicate_add, hzeros]
    congr 2
    omega

/-- The comparison below a word is that of the limbs. -/
theorem Holds.cmpFrom (ha : Holds a l) (hb : Holds b k) {i : ℕ} (hi : i ≤ cap) :
    cmpFrom (ε := ε) a b i = pure (Limbs.cmpFrom l k i) := by
  induction i with
  | zero => rfl
  | succ i ih =>
    unfold WordArray.cmpFrom Limbs.cmpFrom
    rw [ha.word hi, hb.word hi, pure_bind, pure_bind, ih (Nat.le_of_succ_le hi)]
    split <;> rfl

/-- The comparison is that of the limbs. -/
theorem Holds.cmp (ha : Holds a l) (hb : Holds b k) :
    cmp (ε := ε) a b = pure (Limbs.cmp l k) := by
  unfold WordArray.cmp Limbs.cmp
  rw [ha.count, hb.count, ha.cmpFrom hb ha.length_le]
  split <;> rfl

/-- A cast to 32 bits drops the high bits. -/
theorem toUInt32_eq_ofNat (z : UInt64) : z.toUInt32 = UInt32.ofNat z.toNat := by
  rw [← UInt32.toNat_inj, UInt64.toNat_toUInt32, UInt32.toNat_ofNat']

/-- A word of a difference in numbers: nothing is lost in 64 bits. -/
theorem subWord_eq (x y : UInt32) {borrow : UInt64} (hborrow : borrow.toNat ≤ 1) :
    subWord x y borrow =
      if x.toNat ≥ y.toNat + borrow.toNat then
        (UInt32.ofNat (x.toNat - (y.toNat + borrow.toNat)), 0)
      else (UInt32.ofNat (2 ^ 32 + x.toNat - (y.toNat + borrow.toNat)), 1) := by
  have hx := x.toNat_lt
  have hy := y.toNat_lt
  have hb : (y.toUInt64 + borrow).toNat = y.toNat + borrow.toNat := by
    rw [UInt64.toNat_add, UInt32.toNat_toUInt64]
    omega
  have hcond : x.toUInt64 ≥ y.toUInt64 + borrow ↔ x.toNat ≥ y.toNat + borrow.toNat := by
    rw [ge_iff_le, UInt64.le_iff_toNat_le, hb, UInt32.toNat_toUInt64]
  unfold subWord
  dsimp only
  by_cases h : x.toNat ≥ y.toNat + borrow.toNat
  · rw [if_pos (hcond.mpr h), if_pos h]
    rw [toUInt32_eq_ofNat, UInt64.toNat_sub_of_le _ _ (hcond.mpr h), hb, UInt32.toNat_toUInt64]
  · have hsum : (((1 : UInt64) <<< 32) + x.toUInt64).toNat = 2 ^ 32 + x.toNat := by
      rw [UInt64.toNat_add, UInt32.toNat_toUInt64,
        show ((1 : UInt64) <<< 32).toNat = 2 ^ 32 from rfl]
      omega
    have hle : y.toUInt64 + borrow ≤ ((1 : UInt64) <<< 32) + x.toUInt64 := by
      rw [UInt64.le_iff_toNat_le, hb, hsum]
      omega
    rw [if_neg (mt hcond.mp h), if_neg h]
    rw [toUInt32_eq_ofNat, UInt64.toNat_sub_of_le _ _ hle, hb, hsum]

/-- A borrow is zero or one. -/
theorem subWord_borrow (x y : UInt32) (borrow : UInt64) : (subWord x y borrow).2.toNat ≤ 1 := by
  unfold subWord
  dsimp only
  split
  · exact Nat.zero_le 1
  · exact Nat.le_refl 1

/-- The first word of a difference of limbs. -/
theorem subLoop_cons (x : UInt32) (l k : Limbs) {borrow : UInt64} (hborrow : borrow.toNat ≤ 1) :
    Limbs.subLoop (x :: l) k borrow.toNat =
      (subWord x (k.headD 0) borrow).1 ::
        Limbs.subLoop l k.tail (subWord x (k.headD 0) borrow).2.toNat := by
  rw [subWord_eq x (k.headD 0) hborrow, Limbs.subLoop]
  split <;> rfl

/-- The head behind some limbs is the limb at that place. -/
theorem headD_drop (l : Limbs) (i : ℕ) : (l.drop i).headD 0 = l.getD i 0 := by
  rw [List.headD_eq_head?_getD, List.head?_drop, List.getD_eq_getElem?_getD]

/-- The words of `l` behind `front` without those of `k`. -/
theorem subLoop_eq (hb : Holds b k) (l : Limbs) {front back : Limbs} {borrow : UInt64}
    (hborrow : borrow.toNat ≤ 1) (h : a.w.val = front ++ (l ++ back)) :
    ∃ r, subLoop (ε := ε) b l.length front.length borrow a = pure r ∧
      r.w.val = front ++ (Limbs.subLoop l (k.drop front.length) borrow.toNat ++ back) ∧
      r.n = a.n := by
  induction l generalizing front borrow a with
  | nil => exact ⟨a, rfl, h, rfl⟩
  | cons x l ih =>
    have hlt : front.length < cap := by
      have hlen := congrArg List.length h
      rw [a.w.property, List.length_append, List.length_append, List.length_cons] at hlen
      omega
    have hx : a.w.val.getD front.length 0 = x := by
      rw [h, List.getD_eq_getElem?_getD, List.getElem?_append_right (Nat.le_refl _), Nat.sub_self]
      rfl
    have hcons := subLoop_cons x l (k.drop front.length) hborrow
    have hnext := subWord_borrow x (k.getD front.length 0) borrow
    rw [headD_drop, List.tail_drop] at hcons
    generalize hd : subWord x (k.getD front.length 0) borrow = d at hcons hnext
    obtain ⟨s, hs, hsw, hsn⟩ := setWord_eq (ε := ε) (x := d.1) h
    have hsplit : s.w.val = (front ++ [d.1]) ++ (l ++ back) := by
      rw [hsw, List.append_assoc]
      rfl
    obtain ⟨r, hr, hrw, hrn⟩ := ih hnext hsplit
    rw [List.length_append, List.length_singleton] at hr hrw
    refine ⟨r, ?_, ?_, hrn.trans hsn⟩
    · rw [List.length_cons, subLoop, word_eq a hlt, hx, pure_bind, hb.wordOr, pure_bind]
      dsimp only
      rw [hd, hs, pure_bind, hr]
    · rw [hrw, hcons, List.append_assoc]
      rfl

/-- The difference has as many limbs as the first number. -/
theorem length_subLoop (l k : Limbs) (borrow : ℕ) :
    (Limbs.subLoop l k borrow).length = l.length := by
  induction l generalizing k borrow with
  | nil => rfl
  | cons x l ih =>
    unfold Limbs.subLoop
    dsimp only
    split <;> rw [List.length_cons, ih, List.length_cons]

/-- The difference is that of the limbs. -/
theorem Holds.sub (ha : Holds a l) (hb : Holds b k) :
    Returns (ε := ε) (sub a b) (Limbs.sub l k) := by
  have h : a.w.val = [] ++ (l ++ List.replicate (cap - l.length) 0) := ha.words
  obtain ⟨r, hr, hrw, hrn⟩ := subLoop_eq (ε := ε) hb l
    (show (0 : UInt64).toNat ≤ 1 from Nat.zero_le 1) h
  have hholds : Holds r (Limbs.subLoop l k 0) := by
    refine ⟨?_, by rw [hrn, ha.count, length_subLoop]⟩
    rw [hrw, length_subLoop]
    rfl
  unfold WordArray.sub
  rw [ha.count, show subLoop b l.length 0 0 a = pure r from hr, pure_bind]
  exact hholds.trim

/-- The sum of two words and a carry fits 64 bits. -/
theorem toNat_addWord (x y : UInt32) {carry : UInt64} (hcarry : carry.toNat ≤ 1) :
    (carry + x.toUInt64 + y.toUInt64).toNat = carry.toNat + x.toNat + y.toNat := by
  have hx := x.toNat_lt
  have hy := y.toNat_lt
  rw [UInt64.toNat_add, UInt64.toNat_add, UInt32.toNat_toUInt64, UInt32.toNat_toUInt64]
  omega

/-- The next carry is the high half of the sum. -/
theorem addWord_carry (x y : UInt32) {carry : UInt64} (hcarry : carry.toNat ≤ 1) :
    (addWord x y carry).2.toNat = (carry.toNat + x.toNat + y.toNat) / 2 ^ 32 := by
  unfold addWord
  dsimp only
  rw [UInt64.toNat_shiftRight, toNat_addWord x y hcarry, Nat.shiftRight_eq_div_pow]
  rfl

/-- The first word of a sum of limbs: nothing is lost in 64 bits. -/
theorem addLoop_succ (n : ℕ) (l k : Limbs) {carry : UInt64} (hcarry : carry.toNat ≤ 1) :
    Limbs.addLoop (n + 1) l k carry.toNat =
      (addWord (l.headD 0) (k.headD 0) carry).1 ::
        Limbs.addLoop n l.tail k.tail (addWord (l.headD 0) (k.headD 0) carry).2.toNat := by
  have hword : (addWord (l.headD 0) (k.headD 0) carry).1 =
      UInt32.ofNat (carry.toNat + (l.headD 0).toNat + (k.headD 0).toNat) := by
    unfold addWord
    dsimp only
    rw [toUInt32_eq_ofNat, toNat_addWord _ _ hcarry]
  rw [Limbs.addLoop, addWord_carry _ _ hcarry, hword]

/-- The words of a sum take the places of those behind `front`. -/
theorem addLoop_eq (ha : Holds a l) (hb : Holds b k) (old : Limbs) {front back : Limbs}
    {carry : UInt64} (hcarry : carry.toNat ≤ 1) (h : t.w.val = front ++ (old ++ back)) :
    ∃ r c s, addLoop (ε := ε) a b old.length front.length carry t = pure (r, c) ∧
      r.w.val = front ++ (s ++ back) ∧ r.n = t.n ∧ s.length = old.length ∧
      s ++ [c.toUInt32] = Limbs.addLoop old.length (l.drop front.length) (k.drop front.length)
        carry.toNat := by
  induction old generalizing front carry t with
  | nil =>
    refine ⟨t, carry, [], rfl, h, rfl, rfl, ?_⟩
    rw [List.length_nil, Limbs.addLoop, List.nil_append, toUInt32_eq_ofNat]
  | cons x old ih =>
    have hsucc := addLoop_succ old.length (l.drop front.length) (k.drop front.length) hcarry
    have hnext : (addWord (l.getD front.length 0) (k.getD front.length 0) carry).2.toNat ≤ 1 := by
      have hx := (l.getD front.length 0).toNat_lt
      have hy := (k.getD front.length 0).toNat_lt
      rw [addWord_carry _ _ hcarry]
      omega
    rw [headD_drop, headD_drop, List.tail_drop, List.tail_drop] at hsucc
    generalize hd : addWord (l.getD front.length 0) (k.getD front.length 0) carry = d
      at hsucc hnext
    obtain ⟨t', ht, htw, htn⟩ := setWord_eq (ε := ε) (x := d.1) h
    have hsplit : t'.w.val = (front ++ [d.1]) ++ (old ++ back) := by
      rw [htw, List.append_assoc]
      rfl
    obtain ⟨r, c, s, hr, hrw, hrn, hlen, hs⟩ := ih hnext hsplit
    rw [List.length_append, List.length_singleton] at hr hs
    refine ⟨r, c, d.1 :: s, ?_, ?_, hrn.trans htn, ?_, ?_⟩
    · rw [List.length_cons, addLoop, ha.wordOr, pure_bind, hb.wordOr, pure_bind]
      dsimp only
      rw [hd, ht, pure_bind, hr]
    · rw [hrw, List.append_assoc]
      rfl
    · rw [List.length_cons, hlen, List.length_cons]
    · rw [List.length_cons, hsucc, ← hs]
      rfl

/-- The sum has one limb more for the carry. -/
theorem length_addLoop (n : ℕ) (l k : Limbs) (carry : ℕ) :
    (Limbs.addLoop n l k carry).length = n + 1 := by
  induction n generalizing l k carry with
  | zero => rfl
  | succ n ih => rw [Limbs.addLoop, List.length_cons, ih]

/-- The test before the reduction is that of the limbs. -/
theorem Holds.atLeast (ha : Holds t l) (hm : Holds m j) :
    atLeast (ε := ε) t m = pure (decide (l.length > j.length ∨ Limbs.cmp l j ≥ 0)) := by
  unfold WordArray.atLeast
  rw [ha.count, hm.count, ha.cmp hm, pure_bind]
  by_cases h : l.length > j.length
  · rw [if_pos h, decide_eq_true (Or.inl h)]
  · rw [if_neg h]
    simp only [h, false_or]

/-- A routine that goes on with what the one before it returned. -/
theorem Returns.bind {x : Guarded ε (WordArray cap)}
    {f : WordArray cap → Guarded ε (WordArray cap)}
    (hx : Returns x l) (hf : ∀ r, Holds r l → Returns (f r) k) : Returns (x >>= f) k := by
  obtain ⟨r, rfl, hr⟩ := hx
  rw [pure_bind]
  exact hf r hr

/-- An array that holds the limbs returns them. -/
theorem returns_pure (h : Holds a l) : Returns (ε := ε) (pure a) l := ⟨a, rfl, h⟩

/-- The array has a word more than the modulus for the last carry. -/
theorem Holds.addMod (hcap : j.length < cap) (ha : Holds a l) (hb : Holds b k) (hm : Holds m j) :
    Returns (ε := ε) (addMod a b m) (Limbs.addMod l k j) := by
  have hzeros : (empty cap).w.val = [] ++ (List.replicate j.length 0 ++
      (0 : UInt32) :: List.replicate (cap - (j.length + 1)) 0) := by
    show List.replicate cap 0 = _
    rw [List.nil_append, ← List.replicate_succ, List.replicate_append_replicate]
    congr 1
    omega
  obtain ⟨r, c, s, hr, hrw, hrn, hlen, hs⟩ := addLoop_eq (ε := ε)
    (t := { empty cap with n := m.n + 1 }) ha hb (List.replicate j.length 0)
    (show (0 : UInt64).toNat ≤ 1 from Nat.zero_le 1) hzeros
  rw [List.length_replicate] at hr hlen hs
  obtain ⟨t, ht, htw, htn⟩ := setWord_eq (ε := ε) (x := c.toUInt32) hrw
  have hsum : Holds t (Limbs.addLoop j.length l k 0) := by
    have hl : s ++ [c.toUInt32] = Limbs.addLoop j.length l k 0 := hs
    refine ⟨?_, by rw [htn, hrn, hm.count, length_addLoop]⟩
    rw [htw, length_addLoop, ← hl, List.append_assoc]
    rfl
  unfold WordArray.addMod
  rw [hm.count, show addLoop a b j.length 0 0 _ = pure (r, c) from hm.count ▸ hr, pure_bind]
  dsimp only
  rw [← hlen, show r.setWord s.length c.toUInt32 = pure t from ht, pure_bind]
  refine hsum.trim.bind fun t' ht' => ?_
  rw [ht'.atLeast hm, pure_bind]
  unfold Limbs.addMod
  simp only [decide_eq_true_eq]
  split
  · exact ht'.sub hm
  · exact returns_pure ht'

/-- The modular difference is that of the limbs. -/
theorem Holds.subMod (ha : Holds a l) (hb : Holds b k) (hm : Holds m j) :
    Returns (ε := ε) (subMod a b m) (Limbs.subMod l k j) := by
  unfold WordArray.subMod Limbs.subMod
  rw [ha.cmp hb, pure_bind]
  split
  · exact ha.sub hb
  · exact (hb.sub ha).bind fun d hd => hm.sub hd

/-- The number of bits is that of the limbs. -/
theorem Uses.bits (ha : Uses a l) : bits (ε := ε) a = pure (Limbs.bits l) := by
  unfold WordArray.bits Limbs.bits
  rw [ha.count]
  split
  · rfl
  · rw [ha.word (by omega), pure_bind]

/-- A bit is that of the limbs. -/
theorem Uses.bit (ha : Uses a l) (i : ℕ) : bit (ε := ε) a i = pure (Limbs.bit l i) := by
  unfold WordArray.bit Limbs.bit
  rw [ha.count]
  by_cases hi : i / 32 < l.length
  · rw [if_pos hi, ha.word hi, pure_bind, decide_eq_true hi, Bool.true_and]
  · rw [if_neg hi, decide_eq_false hi, Bool.false_and]

/-- A step that is taken under a condition. -/
theorem returns_updateIf {set : Bool} {f : WordArray cap → Guarded ε (WordArray cap)}
    {r : WordArray cap} (hr : Holds r l) (hf : Returns (f r) k) :
    Returns (updateIf set f r) (if set then k else l) := by
  unfold updateIf
  split
  · exact hf
  · exact returns_pure hr

/-- The loop of the multiplication is that of the limbs. -/
theorem Holds.mulLoop (hcap : j.length < cap) (hb : Uses b k) (hm : Holds m j) (count i : ℕ)
    {r : WordArray cap} {s : Limbs} (hr : Holds r s) (ha : Holds a l) :
    Returns (ε := ε) (mulLoop b m count i r a) (Limbs.mulLoop k j count i s l) := by
  induction count generalizing i r a s l with
  | zero => exact returns_pure hr
  | succ count ih =>
    unfold WordArray.mulLoop Limbs.mulLoop
    rw [hb.bit, pure_bind]
    refine (returns_updateIf (f := (WordArray.addMod · a m)) hr
      (hr.addMod hcap ha hm)).bind fun r' hr' => ?_
    exact (ha.addMod hcap ha hm).bind fun a' ha' => ih (i + 1) hr' ha'

/-- The modular product is that of the limbs. -/
theorem Holds.mulMod (hcap : j.length < cap) (ha : Holds a l) (hb : Uses b k) (hm : Holds m j) :
    Returns (ε := ε) (mulMod a b m) (Limbs.mulMod l k j) := by
  unfold WordArray.mulMod Limbs.mulMod
  rw [hb.bits, pure_bind]
  exact Holds.mulLoop hcap hb hm _ 0 holds_empty ha

/-- One word that is set in an empty array is one limb. -/
theorem returns_singleton (hcap : 0 < cap) (x : UInt32) :
    Returns (ε := ε) (setWord { empty cap with n := 1 } 0 x) [x] := by
  have hzeros : (empty cap).w.val = [] ++ (0 : UInt32) :: List.replicate (cap - 1) 0 := by
    show List.replicate cap 0 = _
    rw [List.nil_append, ← List.replicate_succ, Nat.sub_add_cancel hcap]
  obtain ⟨r, hr, hrw, hrn⟩ := setWord_eq (ε := ε) (a := { empty cap with n := 1 }) (x := x) hzeros
  exact ⟨r, hr, hrw, hrn⟩

/-- The loop over the bits of the exponent is that of the limbs. -/
theorem Holds.powBitsLoop (hcap : j.length < cap) (hb : Uses b k) (hm : Holds m j) (count i : ℕ)
    {r : WordArray cap} {s : Limbs} (hr : Holds r s) (ha : Holds a l) :
    Returns (ε := ε) (powBitsLoop b m count i r a) (Limbs.powBitsLoop k j count i s l) := by
  induction count generalizing i r a s l with
  | zero => exact returns_pure hr
  | succ count ih =>
    unfold WordArray.powBitsLoop Limbs.powBitsLoop
    rw [hb.bit, pure_bind]
    refine (returns_updateIf (f := (WordArray.mulMod · a m)) hr
        (hr.mulMod hcap ha.uses hm)).bind fun r' hr' => ?_
    exact (ha.mulMod hcap ha.uses hm).bind fun a' ha' => ih (i + 1) hr' ha'

/-- The power by a number is that of the limbs. -/
theorem Holds.powBits (hcap : j.length < cap) (ha : Holds a l) (hb : Uses b k) (hm : Holds m j) :
    Returns (ε := ε) (powBits a b m) (Limbs.powBitsLoop k j (Limbs.bits k) 0 [1] l) := by
  unfold WordArray.powBits
  refine (returns_singleton (Nat.zero_lt_of_lt hcap) 1).bind fun r hr => ?_
  rw [hb.bits, pure_bind]
  exact Holds.powBitsLoop hcap hb hm _ 0 hr ha

/-- The rounds are enough for the bits of the exponent. -/
theorem Holds.powLoop (hcap : j.length < cap) (hm : Holds m j) (fuel : ℕ) {e : UInt32}
    (he : e.toNat < 2 ^ fuel) {r : WordArray cap} {s : Limbs} (hr : Holds r s) (ha : Holds a l) :
    Returns (ε := ε) (powLoop m fuel e r a) (Limbs.powLoop j fuel e.toNat s l) := by
  have hzero : ∀ d : UInt32, d = 0 ↔ d.toNat = 0 := fun d => by
    rw [← UInt32.toNat_inj]
    rfl
  induction fuel generalizing e r a s l with
  | zero =>
    have hnone : e.toNat = 0 := by simpa using he
    unfold WordArray.powLoop
    rw [if_pos ((hzero e).mpr hnone)]
    exact returns_pure hr
  | succ fuel ih =>
    have hodd : e &&& 1 ≠ 0 ↔ e.toNat % 2 = 1 := by
      rw [ne_eq, hzero, UInt32.toNat_and, show (1 : UInt32).toNat = 1 from rfl, Nat.and_one_is_mod]
      omega
    have hhalf : (e >>> 1).toNat = e.toNat / 2 := by
      rw [UInt32.toNat_shiftRight, Nat.shiftRight_eq_div_pow]
      rfl
    unfold WordArray.powLoop Limbs.powLoop
    by_cases hnone : e.toNat = 0
    · rw [if_pos ((hzero e).mpr hnone), if_pos hnone]
      exact returns_pure hr
    · rw [if_neg (mt (hzero e).mp hnone), if_neg hnone]
      refine (returns_updateIf (f := (WordArray.mulMod · a m)) hr
        (hr.mulMod hcap ha.uses hm)).bind fun r' hr' => ?_
      refine (returns_updateIf (f := fun x => WordArray.mulMod x x m) ha
        (ha.mulMod hcap ha.uses hm)).bind fun a' ha' => ?_
      have hnext := ih (by rw [hhalf, pow_succ] at *; omega) hr' ha'
      simp only [decide_eq_true_eq, hodd, ne_eq, hzero, hhalf, ite_not] at hnext
      exact hnext

/-- The power by a word is that of the limbs. -/
theorem Holds.powWord (hcap : j.length < cap) (ha : Holds a l) (e : UInt32) (hm : Holds m j) :
    Returns (ε := ε) (powWord a e m) (Limbs.powLoop j 32 e.toNat [1] l) := by
  unfold WordArray.powWord
  refine (returns_singleton (Nat.zero_lt_of_lt hcap) 1).bind fun r hr => ?_
  exact hm.powLoop hcap 32 e.toNat_lt hr ha

/-! ## Numbers from octets -/

/-- An octet that is put above a number with none there. -/
theorem toNat_or_octet {x : UInt32} {i : ℕ} (hi : i < 4) (hx : x.toNat < 2 ^ (8 * i)) (o : UInt8) :
    (x ||| (o.toUInt32 <<< UInt32.ofNat (i * 8))).toNat = x.toNat + 2 ^ (8 * i) * o.toNat := by
  have ho := o.toNat_lt
  have hshift : (UInt32.ofNat (i * 8)).toNat % 32 = 8 * i := by
    rw [UInt32.toNat_ofNat']
    omega
  have hfit : 2 ^ (8 * i) * o.toNat < 2 ^ 32 := by
    calc 2 ^ (8 * i) * o.toNat < 2 ^ (8 * i) * 2 ^ 8 :=
          Nat.mul_lt_mul_of_pos_left ho (Nat.two_pow_pos _)
      _ = 2 ^ (8 * i + 8) := (pow_add 2 (8 * i) 8).symm
      _ ≤ 2 ^ 32 := Nat.pow_le_pow_right Nat.two_pos (by omega)
  rw [UInt32.toNat_or, UInt32.toNat_shiftLeft, hshift, UInt8.toNat_toUInt32, Nat.shiftLeft_eq,
    Nat.mul_comm o.toNat, Nat.mod_eq_of_lt hfit, Nat.or_comm,
    ← Nat.two_pow_add_eq_or_of_lt hx, Nat.add_comm]

/-- The limbs of octets in an array of `n` words. -/
def packed (n : ℕ) (s : List UInt8) : Limbs :=
  Limbs.pack s ++ List.replicate (n - (Limbs.pack s).length) 0

/-- One more octet in the first word. -/
theorem packed_concat_of_short {s : List UInt8} {o : UInt8} {n : ℕ} {x y : UInt32}
    (hs : packed n s = x :: List.replicate (n - 1) 0)
    (hnext : packed n (s ++ [o]) = y :: List.replicate (n - 1) 0) (hlen : s.length < 4)
    (hx : x.toNat < 2 ^ (8 * s.length)) (hy : y.toNat = x.toNat + 2 ^ (8 * s.length) * o.toNat) :
    (packed n s).set (s.length / 4) ((packed n s).getD (s.length / 4) 0 |||
      (o.toUInt32 <<< UInt32.ofNat (s.length % 4 * 8))) = packed n (s ++ [o]) := by
  have hword : x ||| (o.toUInt32 <<< UInt32.ofNat (s.length * 8)) = y := by
    rw [← UInt32.toNat_inj, toNat_or_octet hlen hx, hy]
  rw [hs, hnext, Nat.div_eq_of_lt hlen, Nat.mod_eq_of_lt hlen, List.set_cons_zero,
    List.getD_cons_zero, hword]

/-- One more octet. -/
theorem packed_concat (s : List UInt8) (o : UInt8) {n : ℕ} (hn : s.length < 4 * n) :
    (packed n s).set (s.length / 4) ((packed n s).getD (s.length / 4) 0 |||
      (o.toUInt32 <<< UInt32.ofNat (s.length % 4 * 8))) = packed n (s ++ [o]) := by
  induction s using Limbs.pack.induct generalizing n with
  | case1 a b c d rest ih =>
    obtain ⟨n, rfl⟩ : ∃ k, n = k + 1 := ⟨n - 1, by simp only [List.length_cons] at hn; omega⟩
    have hlen : (a :: b :: c :: d :: rest).length = rest.length + 4 := rfl
    have hcons : ∀ t, packed (n + 1) (a :: b :: c :: d :: t) =
        Limbs.ofFour a b c d :: packed n t := by
      intro t
      unfold packed
      rw [Limbs.pack, List.length_cons, Nat.add_sub_add_right, List.cons_append]
    have hrest := ih (n := n) (by rw [hlen] at hn; omega)
    rw [hlen, show (rest.length + 4) / 4 = rest.length / 4 + 1 by omega, Nat.add_mod_right,
      hcons, List.set_cons_succ, List.getD_cons_succ, hrest]
    exact (hcons (rest ++ [o])).symm
  | case2 a b c =>
    have ha := a.toNat_lt
    have hb := b.toNat_lt
    have hc := c.toNat_lt
    apply packed_concat_of_short (x := Limbs.ofFour a b c 0) (y := Limbs.ofFour a b c o) rfl rfl
    all_goals simp [Limbs.toNat_ofFour]
    all_goals omega
  | case3 a b =>
    have ha := a.toNat_lt
    have hb := b.toNat_lt
    apply packed_concat_of_short (x := Limbs.ofFour a b 0 0) (y := Limbs.ofFour a b o 0) rfl rfl
    all_goals simp [Limbs.toNat_ofFour]
    all_goals omega
  | case4 a =>
    have ha := a.toNat_lt
    apply packed_concat_of_short (x := Limbs.ofFour a 0 0 0) (y := Limbs.ofFour a o 0 0) rfl rfl
    all_goals simp [Limbs.toNat_ofFour]
    all_goals omega
  | case5 =>
    obtain ⟨n, rfl⟩ : ∃ k, n = k + 1 := ⟨n - 1, by simp only [List.length_nil] at hn; omega⟩
    apply packed_concat_of_short (x := 0) (y := Limbs.ofFour o 0 0 0) rfl rfl
    all_goals simp [Limbs.toNat_ofFour]

/-- Four bytes are packed into one limb. -/
theorem length_pack (s : List UInt8) : (Limbs.pack s).length = (s.length + 3) / 4 := by
  induction s using Limbs.pack.induct with
  | case1 a b c d rest ih =>
    rw [Limbs.pack, List.length_cons, ih]
    simp only [List.length_cons]
    omega
  | case2 => simp [Limbs.pack]
  | case3 => simp [Limbs.pack]
  | case4 => simp [Limbs.pack]
  | case5 => simp [Limbs.pack]

/-- The loop over the bytes packs them from the last one on. -/
theorem fromOctetsLoop_eq (s : List UInt8) {count i : ℕ} (hcount : i + count = s.length)
    (hcap : (s.length + 3) / 4 ≤ cap) (h : a.w.val = packed cap (s.reverse.take i)) :
    ∃ r, fromOctetsLoop (ε := ε) s count i a = pure r ∧ r.w.val = packed cap s.reverse ∧
      r.n = a.n := by
  induction count generalizing i a with
  | zero =>
    refine ⟨a, rfl, ?_, rfl⟩
    rw [h, List.take_of_length_le (by rw [List.length_reverse]; omega)]
  | succ count ih =>
    have hi : i < s.reverse.length := by rw [List.length_reverse]; omega
    have hback : s.length - 1 - i < s.length := by omega
    have hoctet : s[s.length - 1 - i] = s.reverse[i] := (List.getElem_reverse hi).symm
    have hlen : (s.reverse.take i).length = i := by
      rw [List.length_take]
      omega
    have hconcat := packed_concat (s.reverse.take i) s.reverse[i] (n := cap) (by omega)
    rw [hlen, ← h, ← List.take_succ_eq_append_getElem hi] at hconcat
    obtain ⟨r, hr, hrw, hrn⟩ := setWord_of_lt (ε := ε) a (show i / 4 < cap by omega)
      (a.w.val.getD (i / 4) 0 ||| (s.reverse[i].toUInt32 <<< UInt32.ofNat (i % 4 * 8)))
    obtain ⟨r', hr', hrw', hrn'⟩ := ih (i := i + 1) (a := r) (by omega) (hrw.trans hconcat)
    refine ⟨r', ?_, hrw', hrn'.trans hrn⟩
    unfold fromOctetsLoop
    rw [Guarded.getAt_eq hback, pure_bind, hoctet, word_eq a (by omega), pure_bind, hr, pure_bind,
      hr']

/-- The array that is read from bytes holds the limbs that are. -/
theorem returns_fromOctets {max : ℕ} (hcap : max ≤ cap) (s : List UInt8) :
    Returns (ε := ε) (fromOctets cap max s) (Limbs.fromOctets max s) := by
  unfold fromOctets Limbs.fromOctets
  by_cases hmax : (s.length + 3) / 4 > max
  · rw [if_pos hmax, if_pos hmax]
    exact returns_pure holds_empty
  · have hzeros : (empty cap).w.val = packed cap (s.reverse.take 0) := by
      rw [List.take_zero]
      rfl
    obtain ⟨r, hr, hrw, hrn⟩ := fromOctetsLoop_eq (ε := ε)
      (a := { empty cap with n := (s.length + 3) / 4 }) s (Nat.zero_add _) (by omega) hzeros
    have hholds : Holds r (Limbs.pack s.reverse) := by
      refine ⟨hrw, ?_⟩
      rw [hrn, length_pack, List.length_reverse]
    rw [if_neg hmax, if_neg hmax, hr, pure_bind]
    exact hholds.trim

/-- The array of a word holds the word, and nothing if it is zero. -/
theorem returns_ofWord (hcap : 0 < cap) (v : UInt32) :
    Returns (ε := ε) (ofWord cap v) (if v ≠ 0 then [v] else []) := by
  unfold ofWord
  split
  · exact returns_singleton hcap v
  · exact returns_pure holds_empty

end WordArray

end Programs
