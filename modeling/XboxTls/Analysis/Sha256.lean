import XboxTls.Analysis.ByteStrings
import XboxTls.Interface.Sha256
import XboxTls.Model.KeySchedule

/-!
# `Sha256` computes SHA-256

The words of the code are those of the standard, so `transform` is the compression.  A byte that
is fed goes into the buffer, which is compressed when it is full: after any bytes, however they
were cut, the object holds the hash value of the whole blocks and, in its buffer, the rest.
`final` feeds the padding.
-/

set_option autoImplicit false

namespace XboxTls.Analysis

open Programs XboxTls.Model XboxTls.Interface.Sha256

/-! ## Words -/

/-- The code's rotation is the rotation. -/
theorem toBitVec_rotr (x : UInt32) {n : ℕ} (hpos : 0 < n) (hn : n < 32) :
    (rotr x (UInt32.ofNat n)).toBitVec = x.toBitVec.rotateRight n := by
  have hright : ((UInt32.ofNat n).toBitVec % 32).toNat = n := by
    simp
    omega
  have hleft : ((32 - UInt32.ofNat n).toBitVec % 32).toNat = 32 - n := by
    simp
    omega
  rw [rotr, UInt32.toBitVec_or, UInt32.toBitVec_shiftRight, UInt32.toBitVec_shiftLeft,
    BitVec.rotateRight, Nat.mod_eq_of_lt hn]
  show x.toBitVec >>> ((UInt32.ofNat n).toBitVec % 32).toNat |||
    x.toBitVec <<< ((32 - UInt32.ofNat n).toBitVec % 32).toNat = _
  rw [hright, hleft]
  rfl

/-- `ch` is the choice. -/
theorem toBitVec_ch (x y z : UInt32) :
    (ch x y z).toBitVec = choice x.toBitVec y.toBitVec z.toBitVec := by
  simp [ch, choice]

/-- `maj` is the majority. -/
theorem toBitVec_maj (x y z : UInt32) :
    (maj x y z).toBitVec = majority x.toBitVec y.toBitVec z.toBitVec := by
  simp [maj, majority]

/-- `bsig0` is the first large sigma. -/
theorem toBitVec_bsig0 (x : UInt32) : (bsig0 x).toBitVec = bigSigma0 x.toBitVec := by
  simp only [bsig0, bigSigma0, UInt32.toBitVec_xor]
  rw [← toBitVec_rotr x (n := 2) (by omega) (by omega),
    ← toBitVec_rotr x (n := 13) (by omega) (by omega),
    ← toBitVec_rotr x (n := 22) (by omega) (by omega)]
  rfl

/-- `bsig1` is the second large sigma. -/
theorem toBitVec_bsig1 (x : UInt32) : (bsig1 x).toBitVec = bigSigma1 x.toBitVec := by
  simp only [bsig1, bigSigma1, UInt32.toBitVec_xor]
  rw [← toBitVec_rotr x (n := 6) (by omega) (by omega),
    ← toBitVec_rotr x (n := 11) (by omega) (by omega),
    ← toBitVec_rotr x (n := 25) (by omega) (by omega)]
  rfl

/-- `ssig0` is the first small sigma. -/
theorem toBitVec_ssig0 (x : UInt32) : (ssig0 x).toBitVec = smallSigma0 x.toBitVec := by
  simp only [ssig0, smallSigma0, UInt32.toBitVec_xor]
  rw [← toBitVec_rotr x (n := 7) (by omega) (by omega),
    ← toBitVec_rotr x (n := 18) (by omega) (by omega)]
  rfl

/-- `ssig1` is the second small sigma. -/
theorem toBitVec_ssig1 (x : UInt32) : (ssig1 x).toBitVec = smallSigma1 x.toBitVec := by
  simp only [ssig1, smallSigma1, UInt32.toBitVec_xor]
  rw [← toBitVec_rotr x (n := 17) (by omega) (by omega),
    ← toBitVec_rotr x (n := 19) (by omega) (by omega)]
  rfl

/-- A number below `18 ^ 2` is prime unless a number from 2 to 17 says otherwise. -/
theorem prime_iff_of_lt {q : ℕ} (hq : q < 324) :
    q.Prime ↔ 2 ≤ q ∧ ∀ m < 18, 2 ≤ m → m * m ≤ q → ¬ m ∣ q := by
  rw [Nat.prime_def_le_sqrt]
  apply and_congr_right
  intro _
  constructor
  · intro h m _ hm hsquare
    exact h m hm (Nat.le_sqrt.mpr hsquare)
  · intro h m hm hle
    have hsquare := Nat.le_sqrt.mp hle
    refine h m ?_ hm hsquare
    by_contra hlarge
    have hbig := Nat.mul_le_mul (Nat.le_of_not_lt hlarge) (Nat.le_of_not_lt hlarge)
    omega

/-- The first 64 primes, so that they are found once. -/
theorem primes_eq : primes = [2, 3, 5, 7, 11, 13, 17, 19, 23, 29, 31, 37, 41, 43, 47, 53, 59, 61,
    67, 71, 73, 79, 83, 89, 97, 101, 103, 107, 109, 113, 127, 131, 137, 139, 149, 151, 157, 163,
    167, 173, 179, 181, 191, 193, 197, 199, 211, 223, 227, 229, 233, 239, 241, 251, 257, 263, 269,
    271, 277, 281, 283, 293, 307, 311] := by
  have hsieve : primes = (List.range 312).filter fun q =>
      2 ≤ q ∧ ∀ m < 18, 2 ≤ m → m * m ≤ q → ¬ m ∣ q := by
    unfold primes
    refine List.filter_congr fun q hq => ?_
    rw [List.mem_range] at hq
    rw [decide_eq_decide, prime_iff_of_lt (by omega)]
  rw [hsieve]
  decide +kernel

/-- The table `K` holds the constants of the standard. -/
theorem sha256K_toBitVec : sha256K.map UInt32.toBitVec = (List.range 64).map roundConstant := by
  unfold roundConstant
  rw [primes_eq]
  decide +kernel

/-- The words of a table that holds the values of a function. -/
theorem toBitVec_getD {w : List UInt32} {f : ℕ → Word} {n i : ℕ}
    (hw : w.map UInt32.toBitVec = (List.range n).map f) (hi : i < n) :
    (w.getD i 0).toBitVec = f i := by
  have hget := congrArg (fun l => l[i]?) hw
  have hlen : i < w.length := by
    have hlength := congrArg List.length hw
    simp only [List.length_map, List.length_range] at hlength
    omega
  simp only [List.getElem?_map, List.getElem?_eq_getElem hlen, List.getElem?_range hi,
    Option.map_some, Option.some.injEq] at hget
  rw [List.getD_eq_getElem?_getD, List.getElem?_eq_getElem hlen, Option.getD_some, hget]

/-- The code's table has the round constants. -/
theorem sha256K_getD {t : ℕ} (ht : t < 64) : (sha256K.getD t 0).toBitVec = roundConstant t :=
  toBitVec_getD sha256K_toBitVec ht

/-- A word is stored in four octets. -/
theorem storeWord_eq (x : UInt32) : storeWord x = toOctets 4 x.toNat := by
  simp only [storeWord, toOctets, List.nil_append, List.cons_append, Nat.div_div_eq_div_mul,
    List.cons.injEq, ← UInt8.toNat_inj, and_true]
  refine ⟨?_, ?_, ?_, ?_⟩ <;> simp [Nat.shiftRight_eq_div_pow]

/-- The length is stored in eight octets. -/
theorem lengthBytes_eq (bits : UInt64) : lengthBytes bits = toOctets 8 bits.toNat := by
  simp only [lengthBytes, List.range_succ, List.range_zero, List.nil_append, List.cons_append,
    List.map_cons, List.map_nil, toOctets, Nat.div_div_eq_div_mul, List.cons.injEq,
    ← UInt8.toNat_inj, and_true]
  refine ⟨?_, ?_, ?_, ?_, ?_, ?_, ?_, ?_⟩ <;> simp [Nat.shiftRight_eq_div_pow]

/-- Only the low octets count. -/
theorem toOctets_mod (n x : ℕ) : toOctets n (x % 256 ^ n) = toOctets n x := by
  apply ofOctets_inj (by rw [length_toOctets, length_toOctets])
  rw [ofOctets_toOctets, ofOctets_toOctets, Nat.mod_mod]

/-- The length is stored in bits. -/
theorem lengthBytes_ofNat (n : ℕ) : lengthBytes (UInt64.ofNat n * 8) = toOctets 8 (8 * n) := by
  have hbits : (UInt64.ofNat n * 8).toNat = (8 * n) % 256 ^ 8 := by
    simp
    omega
  rw [lengthBytes_eq, hbits, toOctets_mod]

/-- Four octets put together with shifts are a number. -/
theorem or_shifts (b0 b1 b2 b3 : UInt8) :
    ((b0.toUInt32 <<< 24) ||| (b1.toUInt32 <<< 16) ||| (b2.toUInt32 <<< 8) |||
      b3.toUInt32).toNat = ofOctets [b0, b1, b2, b3] := by
  have h0 := b0.toNat_lt
  have h1 := b1.toNat_lt
  have h2 := b2.toNat_lt
  have h3 := b3.toNat_lt
  have hshift : ∀ (b : UInt8) (k : ℕ), k ≤ 24 →
      (b.toUInt32 <<< UInt32.ofNat k).toNat = 2 ^ k * b.toNat := by
    intro b k hk
    have hb := b.toNat_lt
    have hpow : 2 ^ k ≤ 2 ^ 24 := Nat.pow_le_pow_right (by omega) hk
    have hprod : 2 ^ k * b.toNat ≤ 2 ^ 24 * 255 := Nat.mul_le_mul hpow (by omega)
    rw [UInt32.toNat_shiftLeft, UInt8.toNat_toUInt32, UInt32.toNat_ofNat', Nat.shiftLeft_eq,
      Nat.mod_eq_of_lt (by omega : k < 2 ^ 32), Nat.mod_eq_of_lt (by omega : k < 32),
      Nat.mul_comm, Nat.mod_eq_of_lt (by omega)]
  have hs0 : (b0.toUInt32 <<< 24).toNat = _ := hshift b0 24 (by omega)
  have hs1 : (b1.toUInt32 <<< 16).toNat = _ := hshift b1 16 (by omega)
  have hs2 : (b2.toUInt32 <<< 8).toNat = _ := hshift b2 8 (by omega)
  have hor0 := Nat.two_pow_add_eq_or_of_lt (i := 24) (b := 2 ^ 16 * b1.toNat) (by omega) b0.toNat
  have hor1 := Nat.two_pow_add_eq_or_of_lt (i := 16) (b := 2 ^ 8 * b2.toNat) (by omega)
    (2 ^ 8 * b0.toNat + b1.toNat)
  have hor2 := Nat.two_pow_add_eq_or_of_lt (i := 8) (b := b3.toNat) (by omega)
    (2 ^ 16 * b0.toNat + 2 ^ 8 * b1.toNat + b2.toNat)
  have hnumber : ofOctets [b0, b1, b2, b3] =
      2 ^ 24 * b0.toNat + 2 ^ 16 * b1.toNat + 2 ^ 8 * b2.toNat + b3.toNat := by
    simp [ofOctets, Nat.ofDigits]
    omega
  have hfirst : 2 ^ 24 * b0.toNat + 2 ^ 16 * b1.toNat =
      2 ^ 16 * (2 ^ 8 * b0.toNat + b1.toNat) := by ring
  have hsecond : 2 ^ 16 * (2 ^ 8 * b0.toNat + b1.toNat) + 2 ^ 8 * b2.toNat =
      2 ^ 8 * (2 ^ 16 * b0.toNat + 2 ^ 8 * b1.toNat + b2.toNat) := by ring
  simp only [UInt32.toNat_or, UInt8.toNat_toUInt32, hs0, hs1, hs2]
  rw [← hor0, hfirst, ← hor1, hsecond, ← hor2, hnumber]
  ring

/-- A word is loaded from four octets. -/
theorem loadWord_toBitVec (block : FixedBytes 64) {i : ℕ} (hi : i < 16) :
    (loadWord block i).toBitVec = BitVec.ofNat 32 (ofOctets (slice block.val (4 * i) 4)) := by
  have hslice : slice block.val (4 * i) 4 = [byteAt block.val (i * 4), byteAt block.val (i * 4 + 1),
      byteAt block.val (i * 4 + 2), byteAt block.val (i * 4 + 3)] := by
    have hlen := block.property
    rw [slice_succ (by omega), slice_succ (by omega), slice_succ (by omega), slice_succ (by omega),
      Nat.mul_comm 4 i]
    simp [slice]
  have hload := or_shifts (byteAt block.val (i * 4)) (byteAt block.val (i * 4 + 1))
    (byteAt block.val (i * 4 + 2)) (byteAt block.val (i * 4 + 3))
  rw [hslice, ← hload, ← loadWord]
  simp

/-! ## The compression -/

/-- The words of the code as words of the standard. -/
def toWords (s : Sha256Words) : Words :=
  ⟨s.a.toBitVec, s.b.toBitVec, s.c.toBitVec, s.d.toBitVec, s.e.toBitVec, s.f.toBitVec,
    s.g.toBitVec, s.h.toBitVec⟩

/-- The next word is that of the schedule. -/
theorem toBitVec_nextWord {block : Bytes} {w : List UInt32} {i : ℕ} (hi : 16 ≤ i)
    (hw : w.map UInt32.toBitVec = (List.range i).map (schedule block)) :
    (nextWord w i).toBitVec = schedule block i := by
  simp only [nextWord, UInt32.toBitVec_add, toBitVec_ssig0, toBitVec_ssig1]
  rw [toBitVec_getD hw (by omega), toBitVec_getD hw (by omega), toBitVec_getD hw (by omega),
    toBitVec_getD hw (by omega), schedule.eq_1 block i, if_neg (by omega)]

/-- The table `w` after the words up to `16 + n` holds those of the schedule. -/
theorem words_foldl (block : FixedBytes 64) (n : ℕ) :
    ((List.range' 16 n).foldl (fun w i => w ++ [nextWord w i])
      ((List.range 16).map (loadWord block))).map UInt32.toBitVec =
      (List.range (16 + n)).map (schedule block.val) := by
  induction n with
  | zero =>
    simp only [List.range'_zero, List.foldl_nil, Nat.add_zero, List.map_map]
    apply List.map_congr_left
    intro i hi
    rw [List.mem_range] at hi
    rw [schedule, if_pos hi]
    exact loadWord_toBitVec block hi
  | succ n ih =>
    rw [List.range'_1_concat, List.foldl_concat, List.map_append, ih, ← Nat.add_assoc,
      List.range_succ (n := 16 + n), List.map_append]
    congr 1
    rw [List.map_singleton, List.map_singleton, toBitVec_nextWord (by omega) ih]

/-- All words are those of the schedule. -/
theorem wordsOf_toBitVec (block : FixedBytes 64) :
    (wordsOf block).map UInt32.toBitVec = (List.range 64).map (schedule block.val) :=
  words_foldl block 48

/-- A round of the code is a round. -/
theorem toWords_round (s : Sha256Words) (k w : UInt32) :
    toWords (sha256Round s k w) = Interface.Sha256.round (toWords s) k.toBitVec w.toBitVec := by
  simp only [toWords, sha256Round, Interface.Sha256.round, UInt32.toBitVec_add, toBitVec_bsig0,
    toBitVec_bsig1, toBitVec_ch, toBitVec_maj]

/-- The rounds of the code are the rounds. -/
theorem toWords_rounds (s : Sha256Words) (block : FixedBytes 64) {n : ℕ} (hn : n ≤ 64) :
    toWords ((List.range n).foldl
      (fun r i => sha256Round r (sha256K.getD i 0) ((wordsOf block).getD i 0)) s) =
      (List.range n).foldl
        (fun r t => Interface.Sha256.round r (roundConstant t) (schedule block.val t))
        (toWords s) := by
  induction n with
  | zero => rfl
  | succ n ih =>
    have hk := sha256K_getD (t := n) (by omega)
    have hw := toBitVec_getD (wordsOf_toBitVec block) (i := n) (by omega)
    rw [List.range_succ, List.foldl_concat, List.foldl_concat, toWords_round, ih (by omega), hk, hw]

/-- `transform` is the compression of the standard. -/
theorem toWords_transform (s : Sha256Words) (block : FixedBytes 64) :
    toWords (sha256Transform s block) = compress (toWords s) block.val := by
  have hadd : ∀ r, toWords (s.add r) = (toWords s).add (toWords r) := by
    intro r
    simp only [toWords, Sha256Words.add, Words.add, UInt32.toBitVec_add]
  rw [sha256Transform, hadd, toWords_rounds s block (by omega)]
  rfl

/-- The code starts from the initial words. -/
theorem toWords_reset : toWords Sha256.reset.state = initial := by
  decide +kernel

/-- The state is stored in octets. -/
theorem toBytes_eq (s : Sha256Words) : s.toBytes.val = (toWords s).octets := by
  simp only [Sha256Words.toBytes, Words.octets, toWords, storeWord_eq, List.flatMap_cons,
    List.flatMap_nil, List.append_nil, List.append_assoc]
  rfl

/-! ## Feeding -/

/-- Two strings are stored one behind the other. -/
theorem storeAll_append {n : ℕ} (a : FixedBytes n) (i : ℕ) (p q : Bytes) :
    a.storeAll i (p ++ q) = (a.storeAll i p).storeAll (i + p.length) q := by
  induction p generalizing a i with
  | nil => rfl
  | cons v p ih =>
    rw [List.cons_append, FixedBytes.storeAll, ih, FixedBytes.storeAll, List.length_cons]
    congr 1
    omega

/-- One byte, as the object takes it in. -/
def pushByte (s : Sha256) (v : UInt8) : Sha256 :=
  let buffer := s.buffer.set s.buffered v
  if h : s.buffered + 1 = 64 then
    { s with
      state := sha256Transform s.state buffer
      buffer := buffer
      buffered := 0
      hasRoom := by omega }
  else
    { s with
      buffer := buffer
      buffered := s.buffered + 1
      hasRoom := by
        have hroom := s.hasRoom
        omega }

/-- Bytes that leave room are stored. -/
theorem foldl_pushByte_of_lt {s : Sha256} {p : Bytes} (h : s.buffered + p.length < 64) :
    p.foldl pushByte s =
      { s with
        buffer := s.buffer.storeAll s.buffered p
        buffered := s.buffered + p.length
        hasRoom := h } := by
  induction p generalizing s with
  | nil => rfl
  | cons v p ih =>
    rw [List.length_cons] at h
    have hpush : pushByte s v =
        { s with
          buffer := s.buffer.set s.buffered v
          buffered := s.buffered + 1
          hasRoom := by omega } := by
      rw [pushByte, dif_neg (by omega)]
    rw [List.foldl_cons, hpush, ih (by simpa [Nat.add_assoc, Nat.add_comm 1] using h)]
    simp only [FixedBytes.storeAll, List.length_cons, Sha256.mk.injEq, true_and]
    omega

/-- The buffer is not empty. -/
theorem zero_lt_bufferSize : 0 < 64 := by
  omega

/-- Bytes that fill the buffer are compressed. -/
theorem foldl_pushByte_of_eq {s : Sha256} {p : Bytes} (h : s.buffered + p.length = 64) :
    p.foldl pushByte s =
      { s with
        state := sha256Transform s.state (s.buffer.storeAll s.buffered p)
        buffer := s.buffer.storeAll s.buffered p
        buffered := 0
        hasRoom := zero_lt_bufferSize } := by
  have hroom := s.hasRoom
  obtain ⟨q, v, rfl⟩ : ∃ q v, p = q ++ [v] := by
    cases p using List.reverseRecOn with
    | nil => simp at h; omega
    | append_singleton q v => exact ⟨q, v, rfl⟩
  simp only [List.length_append, List.length_singleton] at h
  rw [List.foldl_concat, foldl_pushByte_of_lt (by omega), pushByte, dif_pos (by omega),
    storeAll_append]
  rfl

/-- `memcpy` by pieces is byte after byte. -/
theorem feed_eq_foldl (s : Sha256) (p : Bytes) : s.feed p = p.foldl pushByte s := by
  fun_induction Sha256.feed s p with
  | case1 s p hp =>
    rw [List.length_eq_zero_iff.mp hp]
    rfl
  | case2 s p hp take buffer hfull ih =>
    have hlen : (p.take take).length = take := by
      rw [List.length_take]
      omega
    rw [ih, ← List.take_append_drop take p, List.foldl_append,
      foldl_pushByte_of_eq (p := p.take take) (by omega)]
    simp [buffer]
  | case3 s p hp take buffer hnot ih =>
    have hroom := s.hasRoom
    have hlen : (p.take take).length = take := by
      rw [List.length_take]
      omega
    conv_rhs => rw [← List.take_append_drop take p]
    rw [ih, List.foldl_append, foldl_pushByte_of_lt (p := p.take take) (by omega)]
    simp only [hlen, buffer]

/-! ## What an object holds -/

/-- The bytes behind the whole blocks. -/
def remainder (m : Bytes) : Bytes := m.drop (64 * (m.length / 64))

/-- The object has taken in the bytes `m`: their whole blocks are compressed, and the rest is in
the buffer. -/
structure Holds (s : Sha256) (m : Bytes) : Prop where
  state : toWords s.state = hashValue m
  buffered : s.buffered = m.length % 64
  buffer : s.buffer.val.take s.buffered = remainder m

/-- What is left of the bytes does not fill a block. -/
theorem length_remainder (m : Bytes) : (remainder m).length = m.length % 64 := by
  rw [remainder, List.length_drop]
  omega

/-- A fresh object holds no bytes. -/
theorem holds_reset : Holds Sha256.reset [] where
  state := toWords_reset
  buffered := by rfl
  buffer := by rfl

/-- A block is completed. -/
theorem blocks_concat_of_full {m : Bytes} {v : UInt8} (h : m.length % 64 = 63) :
    blocks (m ++ [v]) = blocks m ++ [remainder m ++ [v]] := by
  have hcount : (m ++ [v]).length / 64 = m.length / 64 + 1 := by
    rw [List.length_append, List.length_singleton]
    omega
  have hlast : slice (m ++ [v]) (64 * (m.length / 64)) 64 = remainder m ++ [v] := by
    rw [slice, List.drop_append_of_le_length (by omega), List.take_of_length_le]
    · rfl
    · rw [List.length_append, List.length_drop, List.length_singleton]
      omega
  rw [blocks, blocks, hcount, List.range_succ, List.map_append, List.map_singleton, hlast]
  congr 1
  apply List.map_congr_left
  intro i hi
  rw [List.mem_range] at hi
  exact slice_append_of_le (by omega)

/-- A byte that does not fill a block adds none. -/
theorem blocks_concat_of_not_full {m : Bytes} {v : UInt8} (h : m.length % 64 ≠ 63) :
    blocks (m ++ [v]) = blocks m := by
  have hcount : (m ++ [v]).length / 64 = m.length / 64 := by
    rw [List.length_append, List.length_singleton]
    omega
  rw [blocks, blocks, hcount]
  apply List.map_congr_left
  intro i hi
  rw [List.mem_range] at hi
  exact slice_append_of_le (by omega)

/-- A byte is stored behind those in use. -/
theorem take_succ_set {n : ℕ} (a : FixedBytes n) {i : ℕ} (v : UInt8) (hi : i < n) :
    (a.set i v).val.take (i + 1) = a.val.take i ++ [v] := by
  have hlen := a.property
  rw [FixedBytes.set, List.take_succ_eq_append_getElem (by simp; omega)]
  simp [List.take_set_of_le]

/-- A byte goes into the buffer, and a full buffer is compressed. -/
theorem holds_pushByte {s : Sha256} {m : Bytes} (h : Holds s m) (v : UInt8) :
    Holds (pushByte s v) (m ++ [v]) := by
  have hroom := s.hasRoom
  have hbuffered := h.buffered
  have htake := take_succ_set s.buffer v hroom
  rw [h.buffer] at htake
  unfold pushByte
  by_cases hfull : s.buffered + 1 = 64
  · have hwhole : (s.buffer.set s.buffered v).val = remainder m ++ [v] := by
      rw [← htake, hfull, List.take_of_length_le (s.buffer.set s.buffered v).property.le]
    rw [dif_pos hfull]
    refine ⟨?_, ?_, ?_⟩
    · show toWords (sha256Transform _ _) = _
      rw [toWords_transform, hwhole, h.state, hashValue, hashValue,
        blocks_concat_of_full (by omega), List.foldl_concat]
    · show 0 = _
      rw [List.length_append, List.length_singleton]
      omega
    · have hempty : (remainder (m ++ [v])).length = 0 := by
        rw [length_remainder, List.length_append, List.length_singleton]
        omega
      rw [List.length_eq_zero_iff.mp hempty]
      rfl
  · rw [dif_neg hfull]
    refine ⟨?_, ?_, ?_⟩
    · rw [h.state, hashValue, hashValue, blocks_concat_of_not_full (by omega)]
    · show s.buffered + 1 = _
      rw [List.length_append, List.length_singleton]
      omega
    · have hcount : (m ++ [v]).length / 64 = m.length / 64 := by
        rw [List.length_append, List.length_singleton]
        omega
      rw [htake, remainder, remainder, hcount, List.drop_append_of_le_length (by omega)]

/-- Bytes that are pushed are held. -/
theorem holds_foldl {s : Sha256} {m : Bytes} (h : Holds s m) (p : Bytes) :
    Holds (p.foldl pushByte s) (m ++ p) := by
  induction p generalizing s m with
  | nil => simpa using h
  | cons v p ih =>
    have hrest := ih (holds_pushByte h v)
    rwa [List.append_assoc] at hrest

/-- The object has been fed the bytes `m` since the last `reset`. -/
structure Fed (s : Sha256) (m : Bytes) : Prop extends Holds s m where
  totalBytes : s.totalBytes = UInt64.ofNat m.length

/-- A fresh object was fed nothing. -/
theorem fed_reset : Fed Sha256.reset [] where
  toHolds := holds_reset
  totalBytes := by rfl

/-- Pushing bytes counts none. -/
theorem totalBytes_foldl (s : Sha256) (p : Bytes) :
    (p.foldl pushByte s).totalBytes = s.totalBytes := by
  induction p generalizing s with
  | nil => rfl
  | cons v p ih =>
    rw [List.foldl_cons, ih, pushByte]
    split <;> rfl

/-- An update feeds its bytes. -/
theorem fed_update {s : Sha256} {m : Bytes} (h : Fed s m) (p : Bytes) :
    Fed (s.update p) (m ++ p) := by
  have hcounted : Holds { s with totalBytes := s.totalBytes + UInt64.ofNat p.length } m :=
    ⟨h.state, h.buffered, h.buffer⟩
  have hfeed := holds_foldl hcounted p
  refine ⟨?_, ?_⟩
  · rwa [Sha256.update, feed_eq_foldl]
  · rw [Sha256.update, feed_eq_foldl, totalBytes_foldl, h.totalBytes, List.length_append,
      UInt64.ofNat_add]

/-! ## Finishing -/

/-- `final` feeds the padding. -/
theorem final_eq_pushed (s : Sha256) :
    s.final = ((0x80 :: List.replicate ((119 - s.buffered) % 64) 0 ++
      lengthBytes (s.totalBytes * 8)).foldl pushByte s).state.toBytes := by
  have hroom := s.hasRoom
  have hbits : (lengthBytes (s.totalBytes * 8)).length = 8 := by
    rw [lengthBytes_eq, length_toOctets]
  by_cases hlong : s.buffered + 1 > 56
  · have hsplit : (0x80 :: List.replicate ((119 - s.buffered) % 64) 0 : Bytes) =
        (0x80 :: List.replicate (64 - (s.buffered + 1)) 0) ++ List.replicate 56 0 := by
      rw [List.cons_append, List.replicate_append_replicate]
      congr 2
      omega
    have hfirst : s.buffered +
        (0x80 :: List.replicate (64 - (s.buffered + 1)) 0 : Bytes).length = 64 := by
      rw [List.length_cons, List.length_replicate]
      omega
    rw [hsplit, List.append_assoc, List.foldl_append, foldl_pushByte_of_eq hfirst,
      foldl_pushByte_of_eq (by simp [hbits]), storeAll_append]
    simp only [Sha256.final, if_pos hlong, FixedBytes.storeAll, List.length_replicate,
      Nat.zero_add, Nat.sub_zero]
  · have hzeros : (119 - s.buffered) % 64 = 56 - (s.buffered + 1) := by omega
    have hlast : s.buffered + (0x80 :: List.replicate (56 - (s.buffered + 1)) 0 : Bytes).length =
        56 := by
      rw [List.length_cons, List.length_replicate]
      omega
    rw [hzeros, foldl_pushByte_of_eq (by rw [List.length_append, hbits]; omega), storeAll_append,
      hlast]
    simp only [Sha256.final, if_neg hlong, FixedBytes.storeAll]

/-- The digest of what was fed. -/
theorem final_eq_digest {s : Sha256} {m : Bytes} (h : Fed s m) : s.final.val = digest m := by
  have hpadding : (0x80 :: List.replicate ((119 - s.buffered) % 64) 0 ++
      lengthBytes (s.totalBytes * 8) : Bytes) = padding m.length := by
    rw [padding, h.totalBytes, lengthBytes_ofNat, h.buffered]
  rw [final_eq_pushed, hpadding, toBytes_eq, (holds_foldl h.toHolds _).state]
  rfl

/-! ## Chunks and transcripts -/

/-- No bytes change nothing. -/
theorem update_nil (s : Sha256) : s.update [] = s := by
  rw [Sha256.update, feed_eq_foldl]
  cases s
  simp

/-- The counter is apart from the rest. -/
theorem pushByte_totalBytes (s : Sha256) (n : UInt64) (v : UInt8) :
    pushByte { s with totalBytes := n } v = { pushByte s v with totalBytes := n } := by
  unfold pushByte
  split <;> rfl

/-- Pushing bytes does not look at the count. -/
theorem foldl_totalBytes (s : Sha256) (n : UInt64) (p : Bytes) :
    p.foldl pushByte { s with totalBytes := n } = { p.foldl pushByte s with totalBytes := n } := by
  induction p generalizing s with
  | nil => rfl
  | cons v p ih => rw [List.foldl_cons, pushByte_totalBytes, ih, List.foldl_cons]

/-- Two chunks are one. -/
theorem update_append (s : Sha256) (a b : Bytes) : (s.update a).update b = s.update (a ++ b) := by
  simp only [Sha256.update, feed_eq_foldl, foldl_totalBytes, List.foldl_append,
    List.length_append, UInt64.ofNat_add, UInt64.add_assoc]

/-- The primitives with the hash of `sha256.cpp`. -/
def withSha256 (P : Crypto) : Crypto :=
  { P with
    Sha256 := Sha256
    shaReset := Sha256.reset
    shaUpdate := Sha256.update
    shaFinal := Sha256.final
    shaUpdate_nil := update_nil
    shaUpdate_append := update_append }

/-- Chunks are fed one after the other. -/
theorem fed_chunks {s : Sha256} {m : Bytes} (h : Fed s m) (chunks : List Bytes) :
    Fed (chunks.foldl Sha256.update s) (m ++ chunks.flatten) := by
  induction chunks generalizing s m with
  | nil => simpa using h
  | cons c chunks ih =>
    have hrest := ih (fed_update h c)
    rwa [List.append_assoc] at hrest

/-- The transcript feeds its bytes, and skips none. -/
theorem fed_transcriptUpdate {t : NativeTranscript} {m : Bytes} (h : Fed t.sha m) (b : Bytes) :
    Fed (t.update b).sha (m ++ b) := by
  unfold NativeTranscript.update
  split
  · exact fed_update h b
  · next hb =>
    have hnil : b = [] := by simpa using hb
    rwa [hnil, List.append_nil]

/-- Each digest is that of the bytes fed before, and asking for it changes no other. -/
theorem snapshots_eq_expected {t : NativeTranscript} {m : Bytes} (h : Fed t.sha m)
    (ops : List Operation) : snapshots t ops = expected m ops := by
  induction ops generalizing t m with
  | nil => rfl
  | cons op ops ih =>
    cases op with
    | reset => exact ih fed_reset
    | update b => exact ih (fed_transcriptUpdate h b)
    | snapshot =>
      have hdigest : t.snapshot.1.val = digest m := final_eq_digest h
      rw [snapshots, expected, hdigest]
      congr 1
      exact ih h

/-- The digest of a string is that of the standard, however the string is cut into chunks, and
a transcript hash returns, at any point, the digest of what it was fed. -/
theorem sha256_streams (chunks : List Bytes) (ops : List Operation) :
    (chunks.foldl Sha256.update Sha256.reset).final.val = digest chunks.flatten ∧
      snapshots NativeTranscript.reset ops = expected [] ops := by
  constructor
  · exact final_eq_digest (fed_chunks fed_reset chunks)
  · exact snapshots_eq_expected fed_reset ops

-- the vector in `test_core.cpp`
example : (nativeSha256 [0x61, 0x62, 0x63]).val.take 8 =
    [0xba, 0x78, 0x16, 0xbf, 0x8f, 0x01, 0xcf, 0xea] := by decide +kernel

end XboxTls.Analysis
