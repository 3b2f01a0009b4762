import XboxTls.Model.Crypto
import XboxTls.Model.DerReaders
import XboxTls.Programs.Limbs

/-!
# ECDSA signatures on P-256

`p256_verify.cpp` from the 256-bit numbers to the check of a signature.  An `N256` of the code
is an array `w` of nine words and the number `n` of its words in use, as the `Nat` of the RSA
verifier; here it is the list of these words.
-/

set_option autoImplicit false

namespace XboxTls.Model.P256

open Programs

/-! ## Numbers -/

/-- `be`: at most eight words are read.
SOURCE: src/crypto/p256_verify.cpp:28-40 -/
abbrev be (s : Bytes) : Limbs := Limbs.fromOctets 8 s

/-- `cmp`.
SOURCE: src/crypto/p256_verify.cpp:19-27 -/
abbrev cmp (a b : Limbs) : Int := Limbs.cmp a b

/-- `subraw`.
SOURCE: src/crypto/p256_verify.cpp:41-54 -/
abbrev subraw (a b : Limbs) : Limbs := Limbs.sub a b

/-- `addm`.
SOURCE: src/crypto/p256_verify.cpp:55-69 -/
abbrev addm (a b m : Limbs) : Limbs := Limbs.addMod a b m

/-- `subm`.
SOURCE: src/crypto/p256_verify.cpp:70-81 -/
abbrev subm (a b m : Limbs) : Limbs := Limbs.subMod a b m

/-- `nbits`.
SOURCE: src/crypto/p256_verify.cpp:82-90 -/
abbrev nbits (a : Limbs) : ℕ := Limbs.bits a

/-- `bit`.
SOURCE: src/crypto/p256_verify.cpp:91-94 -/
abbrev bit (a : Limbs) (i : ℕ) : Bool := Limbs.bit a i

/-- `mulm`.
SOURCE: src/crypto/p256_verify.cpp:95-104 -/
abbrev mulm (a b m : Limbs) : Limbs := Limbs.mulMod a b m

/-- `powm`.
SOURCE: src/crypto/p256_verify.cpp:105-117 -/
def powm (a e m : Limbs) : Limbs := Limbs.powBitsLoop e m (nbits e) 0 [1] a

/-- `zero`.
SOURCE: src/crypto/p256_verify.cpp:118-120 -/
abbrev zero (a : Limbs) : Prop := a.length = 0

/-- `eq`.
SOURCE: src/crypto/p256_verify.cpp:121-123 -/
abbrev eq (a b : Limbs) : Prop := cmp a b = 0

/-- `small`.
SOURCE: src/crypto/p256_verify.cpp:124-131 -/
def small (v : UInt32) : Limbs := if v ≠ 0 then [v] else []

/-! ## Constants -/

/-- `P_BE`. -/
def pBe : Bytes :=
  [0xff, 0xff, 0xff, 0xff, 0x00, 0x00, 0x00, 0x01, 0x00, 0x00, 0x00, 0x00, 0x00, 0x00, 0x00, 0x00,
    0x00, 0x00, 0x00, 0x00, 0xff, 0xff, 0xff, 0xff, 0xff, 0xff, 0xff, 0xff, 0xff, 0xff, 0xff, 0xff]

/-- `N_BE`. -/
def nBe : Bytes :=
  [0xff, 0xff, 0xff, 0xff, 0x00, 0x00, 0x00, 0x00, 0xff, 0xff, 0xff, 0xff, 0xff, 0xff, 0xff, 0xff,
    0xbc, 0xe6, 0xfa, 0xad, 0xa7, 0x17, 0x9e, 0x84, 0xf3, 0xb9, 0xca, 0xc2, 0xfc, 0x63, 0x25, 0x51]

/-- `B_BE`. -/
def bBe : Bytes :=
  [0x5a, 0xc6, 0x35, 0xd8, 0xaa, 0x3a, 0x93, 0xe7, 0xb3, 0xeb, 0xbd, 0x55, 0x76, 0x98, 0x86, 0xbc,
    0x65, 0x1d, 0x06, 0xb0, 0xcc, 0x53, 0xb0, 0xf6, 0x3b, 0xce, 0x3c, 0x3e, 0x27, 0xd2, 0x60, 0x4b]

/-- `GX_BE`. -/
def gxBe : Bytes :=
  [0x6b, 0x17, 0xd1, 0xf2, 0xe1, 0x2c, 0x42, 0x47, 0xf8, 0xbc, 0xe6, 0xe5, 0x63, 0xa4, 0x40, 0xf2,
    0x77, 0x03, 0x7d, 0x81, 0x2d, 0xeb, 0x33, 0xa0, 0xf4, 0xa1, 0x39, 0x45, 0xd8, 0x98, 0xc2, 0x96]

/-- `GY_BE`. -/
def gyBe : Bytes :=
  [0x4f, 0xe3, 0x42, 0xe2, 0xfe, 0x1a, 0x7f, 0x9b, 0x8e, 0xe7, 0xeb, 0x4a, 0x7c, 0x0f, 0x9e, 0x16,
    0x2b, 0xce, 0x33, 0x57, 0x6b, 0x31, 0x5e, 0xce, 0xcb, 0xb6, 0x40, 0x68, 0x37, 0xbf, 0x51, 0xf5]

/-! ## Points -/

/-- `JP`: a point in Jacobian coordinates. -/
structure JP where
  x : Limbs := []
  y : Limbs := []
  z : Limbs := []
  inf : Bool := true

/-- `dbl`.
SOURCE: src/crypto/p256_verify.cpp:154-177 -/
def dbl (a : JP) (p : Limbs) : JP :=
  if a.inf ∨ zero a.y then {}
  else
    let xx := mulm a.x a.x p
    let yy := mulm a.y a.y p
    let yyyy := mulm yy yy p
    let zz := mulm a.z a.z p
    let xpy := addm a.x yy p
    let s := subm (subm (mulm xpy xpy p) xx p) yyyy p
    let s := addm s s p
    let zz2 := mulm zz zz p
    let m := subm xx zz2 p
    let m := addm (addm m m p) m p
    let t := subm (mulm m m p) (addm s s p) p
    let y3 := subm (mulm m (subm s t p) p)
      (addm (addm (addm yyyy yyyy p) (addm yyyy yyyy p) p)
        (addm (addm yyyy yyyy p) (addm yyyy yyyy p) p) p) p
    let z3 := subm (subm (mulm (addm a.y a.z p) (addm a.y a.z p) p) yy p) zz p
    { x := t, y := y3, z := z3, inf := false }

/-- `add_mixed`.
SOURCE: src/crypto/p256_verify.cpp:178-204 -/
def addMixed (a : JP) (qx qy p : Limbs) : JP :=
  if a.inf then { x := qx, y := qy, z := small 1, inf := false }
  else
    let z1z1 := mulm a.z a.z p
    let u2 := mulm qx z1z1 p
    let s2 := mulm qy (mulm a.z z1z1 p) p
    if eq u2 a.x then
      if eq s2 a.y then dbl a p else {}
    else
      let h := subm u2 a.x p
      let hh := mulm h h p
      let i := addm (addm hh hh p) (addm hh hh p) p
      let j := mulm h i p
      let rr := addm (subm s2 a.y p) (subm s2 a.y p) p
      let v := mulm a.x i p
      let x3 := subm (subm (mulm rr rr p) j p) (addm v v p) p
      let y3 := subm (mulm rr (subm v x3 p) p) (addm (mulm a.y j p) (mulm a.y j p) p) p
      let z3 := subm (subm (mulm (addm a.z h p) (addm a.z h p) p) z1z1 p) hh p
      { x := x3, y := y3, z := z3, inf := false }

/-- `addj`.
SOURCE: src/crypto/p256_verify.cpp:205-230 -/
def addj (a b : JP) (p : Limbs) : JP :=
  if a.inf then b
  else if b.inf then a
  else
    let z1z1 := mulm a.z a.z p
    let z2z2 := mulm b.z b.z p
    let u1 := mulm a.x z2z2 p
    let u2 := mulm b.x z1z1 p
    let s1 := mulm a.y (mulm b.z z2z2 p) p
    let s2 := mulm b.y (mulm a.z z1z1 p) p
    if eq u1 u2 then
      if eq s1 s2 then dbl a p else {}
    else
      let h := subm u2 u1 p
      let twoh := addm h h p
      let i := mulm twoh twoh p
      let j := mulm h i p
      let rr := addm (subm s2 s1 p) (subm s2 s1 p) p
      let v := mulm u1 i p
      let x3 := subm (subm (mulm rr rr p) j p) (addm v v p) p
      let y3 := subm (mulm rr (subm v x3 p) p) (addm (mulm s1 j p) (mulm s1 j p) p) p
      let zsum := addm a.z b.z p
      let z3 := mulm (subm (subm (mulm zsum zsum p) z1z1 p) z2z2 p) h p
      { x := x3, y := y3, z := z3, inf := false }

/-- The loop of `scalar` for the bits below `i`, from the top down. -/
def scalarLoop (k x y p : Limbs) : ℕ → JP → JP
  | 0, r => r
  | i + 1, r =>
    let r := dbl r p
    scalarLoop k x y p i (if bit k i then addMixed r x y p else r)

/-- `scalar`.
SOURCE: src/crypto/p256_verify.cpp:231-240 -/
def scalar (k x y p : Limbs) : JP := scalarLoop k x y p (nbits k) {}

/-- `affine_x`.
SOURCE: src/crypto/p256_verify.cpp:241-250 -/
def affineX (a : JP) (p : Limbs) : Option Limbs :=
  if a.inf then none
  else
    let pm2 := subraw p (small 2)
    let zi := powm a.z pm2 p
    let zi2 := mulm zi zi p
    some (mulm a.x zi2 p)

/-- `affine_xy`.
SOURCE: src/crypto/p256_verify.cpp:251-260 -/
def affineXY (a : JP) (p : Limbs) : Option (Limbs × Limbs) :=
  if a.inf then none
  else
    let pm2 := subraw p (small 2)
    let zi := powm a.z pm2 p
    let zi2 := mulm zi zi p
    let zi3 := mulm zi2 zi p
    some (mulm a.x zi2 p, mulm a.y zi3 p)

/-- `to_be32`: the low eight words behind zeros.
SOURCE: src/crypto/p256_verify.cpp:261-271 -/
def toBe32 (a : Limbs) : FixedBytes 32 :=
  ⟨Limbs.toFixed a 32, by rw [Limbs.toFixed_eq_toOctets, length_toOctets]⟩

/-! ## Signatures -/

/-- `dtlv`: `Dtlv` has no `full`, as the `Tlv` of the RSA verifier.
SOURCE: src/crypto/p256_verify.cpp:317-345 -/
def dtlv (input : Bytes) (off : ℕ) : Option ValueSpan := do
  if off ≥ input.length then none
  let p := off
  let tag := byteAt input p
  let p := p + 1
  if p ≥ input.length then none
  let lb := byteAt input p
  let p := p + 1
  let (len, p) ←
    if lb &&& 0x80 = 0 then pure (lb.toNat, p)
    else do
      let n := (lb &&& 0x7F).toNat
      if n = 0 ∨ n > 2 ∨ p + n > input.length then none
      pure (lengthLoop input n 0 p)
  if len > input.length - p then none
  pure ⟨tag, ⟨p, len⟩, p + len⟩

/-- `parse_sig`.
SOURCE: src/crypto/p256_verify.cpp:346-364 -/
def parseSig (der : Bytes) : Option (Limbs × Limbs) := do
  let seq ← dtlv der 0
  if seq.tag ≠ 0x30 ∨ seq.next ≠ der.length then none
  let body := seq.value.bytes der
  let a ← dtlv body 0
  if a.tag ≠ 0x02 then none
  let b ← dtlv body a.next
  if b.tag ≠ 0x02 ∨ b.next ≠ body.length then none
  let av := a.value.bytes body
  let bv := b.value.bytes body
  let av := if av.length > 1 ∧ byteAt av 0 = 0 then av.drop 1 else av
  let bv := if bv.length > 1 ∧ byteAt bv 0 = 0 then bv.drop 1 else bv
  if av.length = 0 ∨ av.length > 32 ∨ bv.length = 0 ∨ bv.length > 32 then none
  pure (be av, be bv)

/-- `while (cmp(x, n) >= 0) subraw(x, n)`, for `fuel` rounds.
SOURCE: src/crypto/p256_verify.cpp:395-396 -/
def reduceLoop (n : Limbs) : ℕ → Limbs → Limbs
  | 0, x => x
  | fuel + 1, x => if cmp x n ≥ 0 then reduceLoop n fuel (subraw x n) else x

/-- The key is on the curve: `lhs` and `rhs` of the code.
SOURCE: src/crypto/p256_verify.cpp:374-377 -/
def onCurve (qx qy bb p : Limbs) : Prop :=
  let lhs := mulm qy qy p
  let x2 := mulm qx qx p
  let x3 := mulm x2 qx p
  let threeX := addm (addm qx qx p) qx p
  let rhs := addm (subm x3 threeX p) bb p
  eq lhs rhs

instance (qx qy bb p : Limbs) : Decidable (onCurve qx qy bb p) :=
  inferInstanceAs (Decidable (cmp _ _ = 0))

/-! ## Key agreement -/

/-- `valid_private`.
SOURCE: src/crypto/p256_verify.cpp:272-274 -/
def validPrivate (d n : Limbs) : Prop := ¬ zero d ∧ cmp d n < 0

instance (d n : Limbs) : Decidable (validPrivate d n) :=
  inferInstanceAs (Decidable (¬ d.length = 0 ∧ cmp d n < 0))

/-- `p256_public_from_private`.
SOURCE: src/crypto/p256_verify.cpp:276-291 -/
def p256PublicFromPrivate (privateKey : FixedBytes 32) : Except Error (FixedBytes 65) := do
  let p := be pBe
  let n := be nBe
  let gx := be gxBe
  let gy := be gyBe
  let d := be privateKey.val
  if ¬ validPrivate d n then throw .verify
  let q := scalar d gx gy p
  let some (x, y) := affineXY q p | throw .verify
  pure ⟨0x04 :: ((toBe32 x).val ++ (toBe32 y).val), by
    rw [List.length_cons, List.length_append, (toBe32 x).property, (toBe32 y).property]⟩

/-- `p256_shared_secret`.
SOURCE: src/crypto/p256_verify.cpp:293-315 -/
def p256SharedSecret (privateKey : FixedBytes 32) (peerPublicKey : FixedBytes 65) :
    Except Error (FixedBytes 32) := do
  if byteAt peerPublicKey.val 0 ≠ 0x04 then throw .verify
  let p := be pBe
  let n := be nBe
  let bb := be bBe
  let d := be privateKey.val
  if ¬ validPrivate d n then throw .verify
  let qx := be (slice peerPublicKey.val 1 32)
  let qy := be (slice peerPublicKey.val 33 32)
  if cmp qx p ≥ 0 ∨ cmp qy p ≥ 0 then throw .verify
  if ¬ onCurve qx qy bb p then throw .verify
  let q := scalar d qx qy p
  let some (x, _) := affineXY q p | throw .verify
  pure (toBe32 x)

/-! ## The check of a signature -/

/-- The end of `native_p256_ecdsa_sha256_verify`, for a key on the curve and a signature in range.
Every round of the last loop takes one at least from `x`.
SOURCE: src/crypto/p256_verify.cpp:381-397 -/
def checkSignature (P : Crypto) (message : Bytes) (qx qy r s : Limbs) : Except Error Unit := do
  let p := be pBe
  let n := be nBe
  let gx := be gxBe
  let gy := be gyBe
  let hd := P.sha256 message
  let z := be hd.val
  let z := if cmp z n ≥ 0 then subraw z n else z
  let nm2 := subraw n (small 2)
  let w := powm s nm2 n
  let u1 := mulm z w n
  let u2 := mulm r w n
  let a := scalar u1 gx gy p
  let b := scalar u2 qx qy p
  let sum := addj a b p
  let some x := affineX sum p | throw .verify
  let x := reduceLoop n (Limbs.value x) x
  if ¬ eq x r then throw .verify

/-- `native_p256_ecdsa_sha256_verify`.
SOURCE: src/crypto/p256_verify.cpp:366-398 -/
def nativeP256EcdsaSha256Verify (P : Crypto) (key message signature : Bytes) :
    Except Error Unit := do
  if key.length ≠ 65 ∨ byteAt key 0 ≠ 0x04 then throw .verify
  let p := be pBe
  let n := be nBe
  let bb := be bBe
  let qx := be (slice key 1 32)
  let qy := be (slice key 33 32)
  if cmp qx p ≥ 0 ∨ cmp qy p ≥ 0 then throw .verify
  if ¬ onCurve qx qy bb p then throw .verify
  let some (r, s) := parseSig signature | throw .verify
  if zero r ∨ zero s ∨ cmp r n ≥ 0 ∨ cmp s n ≥ 0 then throw .verify
  checkSignature P message qx qy r s

end XboxTls.Model.P256
